import RecordFilter.Proofs.Parsing

namespace RecordFilter

theorem Comparator.token_of_mem_tokens {token : Text} {comparator : Comparator}
    (h : (token, comparator) ∈ tokens false) : token = comparator.token := by
  have hall : ∀ entry ∈ tokens false, entry.1 = entry.2.token := by decide
  exact hall _ h

namespace Language

variable {κ : Type}

-- A comparison that is read without the single equals sign has a path for its name, in which
-- no comparator begins. So the shorter spelling is not found earlier than the longer one.
theorem comparison?_singleEquals (language : Language κ) {member : Text}
    {result : Option (Comparison κ)}
    (h : { language with singleEquals := false }.comparison? member = .ok result) :
    { language with singleEquals := true }.comparison? member = .ok result := by
  obtain ⟨written, token, comparator, literal, rfl, ht, hl, hc⟩ := comparison?_eq_ok h
  have htoken : token = comparator.token := Comparator.token_of_mem_tokens ht
  rw [htoken, comparison?_written language true written comparator hl]
  exact hc

theorem parse_singleEquals (language : Language κ) {text : Text} {condition : Condition κ}
    (h : { language with singleEquals := false }.parse text = .ok condition) :
    { language with singleEquals := true }.parse text = .ok condition :=
  parse_mono (fun _ _ => comparison?_singleEquals language) h

theorem parse_singleEquals_assigned :
    let language : Language Empty := .forBags Regex.isSmall {}
    let text := "(count(a)=le=1;a==b=c),a==b=c".toList
    let leaf : Condition Empty := .leaf (.isText ['a'] "b=c".toList)
    { language with singleEquals := false }.parse text = .ok (.group .or [leaf, leaf]) ∧
      { language with singleEquals := true }.parse text = .ok (.group .or [leaf, leaf]) := by
  intro language text leaf
  have hp : { language with singleEquals := false }.parse text = .ok (.group .or [leaf, leaf]) := rfl
  exact ⟨hp, parse_singleEquals language hp⟩

end Language

end RecordFilter
