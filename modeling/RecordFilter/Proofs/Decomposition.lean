import Mathlib.Data.List.Basic
import Mathlib.Data.List.Induction
import RecordFilter.Proofs.Splitting

namespace RecordFilter

-- A part as it stands in its expression, with the connective that follows it.
def Part.written (part : Part) : Text :=
  part.text ++ (part.connective.map Connective.symbol).toList

namespace Expression

-- No bracket is closed before it is opened, and none is left open.
structure Balanced (text : Text) : Prop where
  closed_le : ∀ lead, lead <+: text → lead.count ')' ≤ lead.count '('
  total : text.count '(' = text.count ')'

-- A connective of the text stands outside all brackets.
def HasOuterConnective (text : Text) : Prop :=
  ∃ before behind, ∃ connective : Connective,
    text = before ++ connective.symbol :: behind ∧ before.count '(' = before.count ')'

-- Such a connective is the last character.
def EndsInConnective (text : Text) : Prop :=
  ∃ before, ∃ connective : Connective,
    text = before ++ [connective.symbol] ∧ before.count '(' = before.count ')'

def rejoin (expression : List Part) : Text := expression.flatMap Part.written

-- The parts make up a text that begins at a position of a larger one. Only the last part has no
-- connective behind it, each part knows its position, and no part could be taken apart further.
structure Decomposes (text : Text) (start : Nat) (expression : List Part) : Prop where
  rejoined : rejoin expression = text
  connective : ∀ before part behind, expression = before ++ part :: behind →
    (part.connective = none ↔ behind = [])
  position : ∀ before part behind, expression = before ++ part :: behind →
    part.start = start + (rejoin before).length
  balanced : ∀ part ∈ expression, Balanced part.text
  undivided : ∀ part ∈ expression, ¬HasOuterConnective part.text

section Balance

variable {barred : Char → Bool} {depth after : Nat} {text : Text}

theorem count_of_depthAfter? (h : depthAfter? barred depth text = some after) :
    after + text.count ')' = depth + text.count '(' := by
  induction text generalizing depth with
  | nil =>
    cases h
    rfl
  | cons c rest ih =>
    obtain ⟨next, hs, hr⟩ := Option.bind_eq_some_iff.mp h
    have hrest := ih hr
    simp only [List.count_cons]
    rcases step?_cases hs with ⟨rfl, rfl⟩ | ⟨rfl, rfl⟩ | ⟨ho, hc, rfl, _⟩
    · simp
      omega
    · simp
      omega
    · simp [ho, hc]
      omega

-- The depth behind a prefix exists as long as no prefix closes more than it opens. So the
-- induction takes the prefixes from the shortest on.
theorem exists_depthAfter? (h : ∀ lead, lead <+: text → lead.count ')' ≤ lead.count '(')
    {lead : Text} (hl : lead <+: text) :
    ∃ after, depthAfter? (fun _ => false) 0 lead = some after := by
  induction lead using List.reverseRecOn with
  | nil => exact ⟨0, rfl⟩
  | append_singleton lead c ih =>
    obtain ⟨before, hb⟩ := ih ((List.prefix_append lead [c]).trans hl)
    rw [depthAfter?_append, hb, Option.bind_some, depthAfter?_cons]
    cases hs : step? (fun _ => false) before c with
    | some next => exact ⟨next, rfl⟩
    | none =>
      obtain ⟨rfl, rfl⟩ := step?_eq_none_iff.mp hs
      have hcount := count_of_depthAfter? hb
      have hle := h _ hl
      simp at hle
      omega

theorem nested_iff_balanced : Nested text ↔ Balanced text := by
  constructor
  · intro h
    refine ⟨fun lead hl => ?_, ?_⟩
    · obtain ⟨behind, rfl⟩ := hl
      rw [Nested, depthAfter?_append] at h
      obtain ⟨before, hb, _⟩ := Option.bind_eq_some_iff.mp h
      have hcount := count_of_depthAfter? hb
      omega
    · have hcount := count_of_depthAfter? h
      omega
  · rintro ⟨hclosed, htotal⟩
    obtain ⟨after, ha⟩ := exists_depthAfter? hclosed (List.prefix_refl text)
    have hcount := count_of_depthAfter? ha
    have hz : after = 0 := by omega
    rw [Nested, ha, hz]

theorem rejoin_cut (depth : Nat) (text : Text) :
    (cut depth text).1 ++ (cut depth text).2.flatMap (fun piece => piece.1.symbol :: piece.2) =
      text := by
  induction text generalizing depth with
  | nil => rw [cut_nil, List.flatMap_nil, List.append_nil]
  | cons c rest ih =>
    by_cases hc : depth = 0 → Connective.ofSymbol? c = none
    · rw [cut_cons rest hc]
      exact congrArg (c :: ·) (ih _)
    · obtain ⟨rfl, hs⟩ : depth = 0 ∧ Connective.ofSymbol? c ≠ none := by simpa using hc
      obtain ⟨connective, hs⟩ := Option.ne_none_iff_exists'.mp hs
      rw [Connective.symbol_of_ofSymbol? hs, cut_symbol, List.flatMap_cons]
      exact congrArg (connective.symbol :: ·) (ih 0)

theorem Balanced.count_eq {lead : Text} {connective : Connective}
    (h : Balanced (lead ++ [connective.symbol])) : lead.count '(' = lead.count ')' := by
  have htotal := h.total
  simp only [List.count_append] at htotal
  cases connective <;> simpa [Connective.symbol] using htotal

-- A member is a balanced text that is not cut anywhere.
theorem member_iff_balanced : Member text ↔ Balanced text ∧ ¬HasOuterConnective text := by
  constructor
  · intro h
    refine ⟨nested_iff_balanced.mp h.nested, ?_⟩
    rintro ⟨before, behind, connective, rfl, hcount⟩
    rw [Member, depthAfter?_append] at h
    obtain ⟨depth, hb, hr⟩ := Option.bind_eq_some_iff.mp h
    have hdepth := count_of_depthAfter? hb
    have hz : depth = 0 := by omega
    subst hz
    cases connective <;> cases hr
  · rintro ⟨hb, hno⟩
    have hmembers := cut_members (nested_iff_balanced.mpr hb)
    have htext := rejoin_cut 0 text
    cases hm : (cut 0 text).2 with
    | nil =>
      rw [hm, List.flatMap_nil, List.append_nil] at htext
      rw [Member, ← htext]
      exact hmembers.1
    | cons piece more =>
      -- the first cut would be a connective outside brackets
      rw [hm, List.flatMap_cons] at htext
      have hcount := count_of_depthAfter? hmembers.1
      exact absurd ⟨_, _, piece.1, htext.symm, by omega⟩ hno

end Balance

theorem rejoin_parts (start : Nat) (first : Text) (more : List (Connective × Text)) :
    rejoin (parts start first more) =
      first ++ more.flatMap fun piece => piece.1.symbol :: piece.2 := by
  induction more generalizing start first with
  | nil => simp [rejoin, parts, Part.written]
  | cons piece more ih =>
    have hr := ih (start + first.length + 1) piece.2
    rw [rejoin] at hr ⊢
    rw [parts, List.flatMap_cons, hr]
    simp [Part.written]

-- Behind each part but the last there is one character more.
theorem part_of_parts {start : Nat} {first : Text} {more : List (Connective × Text)}
    {before behind : List Part} {part : Part}
    (h : parts start first more = before ++ part :: behind) :
    (part.connective = none ↔ behind = []) ∧ part.start = start + (rejoin before).length := by
  induction more generalizing start first before with
  | nil =>
    cases before with
    | nil =>
      cases h
      exact ⟨⟨fun _ => rfl, fun _ => rfl⟩, rfl⟩
    | cons other before => cases before <;> cases h
  | cons piece more ih =>
    cases before with
    | nil =>
      cases h
      refine ⟨⟨nofun, fun he => ?_⟩, rfl⟩
      cases more <;> cases he
    | cons other before =>
      rw [parts, List.cons_append, List.cons.injEq] at h
      obtain ⟨rfl, hrest⟩ := h
      obtain ⟨hc, hp⟩ := ih hrest
      refine ⟨hc, ?_⟩
      rw [hp, rejoin, rejoin, List.flatMap_cons, List.length_append]
      simp [Part.written]
      omega

theorem decomposes_parts {text : Text} (hn : Nested text) (start : Nat) :
    Decomposes text start (parts start (cut 0 text).1 (cut 0 text).2) where
  rejoined := by rw [rejoin_parts, rejoin_cut]
  connective _ _ _ h := (part_of_parts h).1
  position _ _ _ h := (part_of_parts h).2
  balanced _ hp := (member_iff_balanced.mp (member_of_mem_parts hn hp)).1
  undivided _ hp := (member_iff_balanced.mp (member_of_mem_parts hn hp)).2

section Unique

variable {text : Text} {start : Nat} {expression rest : List Part} {part : Part}

theorem Decomposes.member (h : Decomposes text start expression) (hp : part ∈ expression) :
    Member part.text :=
  member_iff_balanced.mpr ⟨h.balanced part hp, h.undivided part hp⟩

theorem Decomposes.tail (h : Decomposes text start (part :: rest)) :
    Decomposes (rejoin rest) (start + part.written.length) rest where
  rejoined := rfl
  connective before other behind he := by
    exact h.connective (part :: before) other behind (congrArg (part :: ·) he)
  position before other behind he := by
    have hp := h.position (part :: before) other behind (congrArg (part :: ·) he)
    rw [hp, rejoin, rejoin, List.flatMap_cons, List.length_append, Nat.add_assoc]
  balanced other ho := h.balanced other (List.mem_cons_of_mem part ho)
  undivided other ho := h.undivided other (List.mem_cons_of_mem part ho)

-- Each part is cut off at the connective behind it, which is the first outside brackets. So the
-- induction follows the parts.
theorem Decomposes.eq_parts (h : Decomposes text start expression) (hne : expression ≠ []) :
    expression = parts start (cut 0 text).1 (cut 0 text).2 := by
  induction expression generalizing text start with
  | nil => exact absurd rfl hne
  | cons part rest ih =>
    have hmember : Member part.text := h.member List.mem_cons_self
    have hlast := h.connective [] part rest rfl
    have hstart : part.start = start := h.position [] part rest rfl
    have htext : part.written ++ rejoin rest = text := h.rejoined
    obtain ⟨content, position, connective⟩ := part
    cases connective with
    | none =>
      obtain rfl : rest = [] := hlast.mp rfl
      have hcontent : content = text := by simpa [Part.written, rejoin] using htext
      subst hcontent hstart
      rw [hmember.cut_eq]
      rfl
    | some connective =>
      have hrest : rest ≠ [] := fun he => by
        cases hlast.mpr he
      have hr := ih h.tail hrest
      have hcut : cut 0 text =
          (content, (connective, (cut 0 (rejoin rest)).1) :: (cut 0 (rejoin rest)).2) := by
        rw [← htext, Part.written, List.append_assoc, cut_append _ hmember]
        simp [cut_symbol]
      have hlength : start + (Part.mk content position (some connective)).written.length =
          start + content.length + 1 := by
        simp [Part.written, Nat.add_assoc]
      rw [hlength] at hr
      rw [hcut, parts, ← hr, ← hstart]

end Unique

theorem danglingEnd?_append (before : List Part) (part last : Part) :
    danglingEnd? (before ++ [part, last]) = danglingEnd? [part, last] := by
  induction before with
  | nil => rfl
  | cons first before ih =>
    rw [← ih]
    match before with
    | [] => exact danglingEnd?_cons first part last []
    | [second] => exact danglingEnd?_cons first second part [last]
    | second :: third :: before => exact danglingEnd?_cons first second third _

-- An expression dangles if its last part is empty, with the connective of the part before.
theorem danglingEnd?_eq_some_iff {expression : List Part} {ending : Text} :
    danglingEnd? expression = some ending ↔
      ∃ before part last, ∃ connective : Connective, expression = before ++ [part, last] ∧
        part.connective = some connective ∧ last.text = [] ∧
        ending = part.text ++ [connective.symbol] := by
  constructor
  · intro h
    rcases List.eq_nil_or_concat' expression with rfl | ⟨front, last, rfl⟩
    · cases h
    rcases List.eq_nil_or_concat' front with rfl | ⟨before, part, rfl⟩
    · cases h
    rw [List.append_assoc, List.singleton_append, danglingEnd?_append] at h
    cases hc : part.connective with
    | none => simp [danglingEnd?, hc] at h
    | some connective =>
      obtain ⟨hl, he⟩ : last.text = [] ∧ part.text ++ [connective.symbol] = ending := by
        simpa [danglingEnd?, hc] using h
      exact ⟨before, part, last, connective, by simp, hc, hl, he.symm⟩
  · rintro ⟨before, part, last, connective, rfl, hc, hl, rfl⟩
    rw [danglingEnd?_append]
    simp [danglingEnd?, hc, hl]

-- The last part cannot end in a connective, as it would be divided there.
theorem Decomposes.last_eq_nil {lead : Text} {connective : Connective} {start : Nat}
    {front : List Part} {last : Part}
    (h : Decomposes (lead ++ [connective.symbol]) start (front ++ [last])) : last.text = [] := by
  have hlast : last ∈ front ++ [last] := by simp
  have hnone : last.connective = none := (h.connective front last [] rfl).mpr rfl
  have hjoin : rejoin front ++ last.text = lead ++ [connective.symbol] := by
    rw [← h.rejoined]
    simp [rejoin, Part.written, hnone]
  rcases List.eq_nil_or_concat' last.text with hl | ⟨content, c, hl⟩
  · exact hl
  · rw [hl, ← List.append_assoc] at hjoin
    have hc : c = connective.symbol := List.singleton_inj.mp (List.append_inj' hjoin rfl).2
    rw [hc] at hl
    have hbalanced : Balanced (content ++ [connective.symbol]) := hl ▸ h.balanced last hlast
    exact absurd ⟨content, [], connective, hl, hbalanced.count_eq⟩ (h.undivided last hlast)

-- A balanced text ends in a connective outside brackets exactly if its last part is empty.
theorem Decomposes.endsInConnective_iff {text : Text} {start : Nat} {expression : List Part}
    (h : Decomposes text start expression) (hb : Balanced text) :
    EndsInConnective text ↔ danglingEnd? expression ≠ none := by
  rw [Option.ne_none_iff_exists']
  constructor
  · rintro ⟨lead, connective, rfl, -⟩
    have hjoin := h.rejoined
    rcases List.eq_nil_or_concat' expression with rfl | ⟨front, last, rfl⟩
    · simp [rejoin] at hjoin
    have hl : last.text = [] := h.last_eq_nil
    have hnone : last.connective = none := (h.connective front last [] rfl).mpr rfl
    rcases List.eq_nil_or_concat' front with rfl | ⟨before, part, rfl⟩
    · simp [rejoin, Part.written, hl, hnone] at hjoin
    have hpart : part.connective ≠ none := fun hn => by
      have hnil := (h.connective before part [last] (by simp)).mp hn
      cases hnil
    obtain ⟨follows, hf⟩ := Option.ne_none_iff_exists'.mp hpart
    exact ⟨_, danglingEnd?_eq_some_iff.mpr
      ⟨before, part, last, follows, by simp, hf, hl, rfl⟩⟩
  · rintro ⟨ending, he⟩
    obtain ⟨before, part, last, connective, rfl, hc, hl, -⟩ := danglingEnd?_eq_some_iff.mp he
    have hnone : last.connective = none :=
      (h.connective (before ++ [part]) last [] (by simp)).mpr rfl
    have htext : text = rejoin before ++ part.text ++ [connective.symbol] := by
      rw [← h.rejoined]
      simp [rejoin, Part.written, hc, hl, hnone]
    rw [htext] at hb
    exact ⟨_, connective, htext, hb.count_eq⟩

theorem split_isOk_iff (text : Text) (start : Nat) :
    (∃ expression, split text start = .ok expression) ↔
      Text.onlyBlank text = false ∧ Nested text ∧
        danglingEnd? (parts 0 (cut 0 text).1 (cut 0 text).2) = none := by
  constructor
  · rintro ⟨expression, hs⟩
    have hn := (split_eq_ok hs).1
    rw [split_of_nested hn] at hs
    by_cases hb : Text.onlyBlank text = true
    · rw [if_pos hb] at hs
      cases hs
    · rw [if_neg hb] at hs
      cases hd : danglingEnd? (parts 0 (cut 0 text).1 (cut 0 text).2) with
      | some ending =>
        rw [hd] at hs
        cases hs
      | none => exact ⟨by simpa using hb, hn, rfl⟩
  · rintro ⟨hb, hn, hd⟩
    rw [split_of_nested hn, hb, hd]
    exact ⟨_, rfl⟩

-- Splitting loses nothing: the parts make up the text again, and the text can be taken apart in no
-- other way. It fails for the texts that are blank, have brackets amiss or end in a connective, and
-- for no others.
theorem split_decomposes (text : Text) (start : Nat) :
    ((∃ expression, split text start = .ok expression) ↔
      Text.onlyBlank text = false ∧ Balanced text ∧ ¬EndsInConnective text) ∧
    ∀ expression, split text start = .ok expression →
      Decomposes text start expression ∧
        ∀ other, Decomposes text start other → other = expression := by
  constructor
  · rw [split_isOk_iff]
    refine and_congr_right fun _ => ?_
    constructor
    · rintro ⟨hn, hd⟩
      have hb := nested_iff_balanced.mp hn
      rw [(decomposes_parts hn 0).endsInConnective_iff hb, not_not]
      exact ⟨hb, hd⟩
    · rintro ⟨hb, hend⟩
      have hn := nested_iff_balanced.mpr hb
      rw [(decomposes_parts hn 0).endsInConnective_iff hb, not_not] at hend
      exact ⟨hn, hend⟩
  · intro expression hs
    have hvisible := ((split_isOk_iff text start).mp ⟨expression, hs⟩).1
    obtain ⟨hn, rfl⟩ := split_eq_ok hs
    refine ⟨decomposes_parts hn start, fun other ho => ho.eq_parts ?_⟩
    -- no parts make up the empty text, which is blank
    rintro rfl
    rw [← ho.rejoined] at hvisible
    cases hvisible

theorem split_decomposes_accented :
    let text : Text := "é==1;(a==2,b==(;)),c==3".toList
    let expression : List Part :=
      [⟨"é==1".toList, 10, some .and⟩, ⟨"(a==2,b==(;))".toList, 15, some .or⟩,
        ⟨"c==3".toList, 29, none⟩]
    split text 10 = .ok expression ∧ Decomposes text 10 expression ∧
      ∀ other, Decomposes text 10 other → other = expression := by
  intro text expression
  have hs : split text 10 = .ok expression := rfl
  exact ⟨hs, (split_decomposes text 10).2 expression hs⟩

end Expression

end RecordFilter
