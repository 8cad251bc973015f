import RecordFilter.Proofs.Terms

namespace RecordFilter

-- A name, as the grammar of paths has it.
def IsName (text : Text) : Prop :=
  text ≠ [] ∧
    ∀ c ∈ text, 0x21 ≤ c.toNat ∧ c.toNat ≤ 0x7E ∧ c ∉ ['=', '!', '(', ')', ';', ',', '.']

theorem isNameChar_iff {c : Char} : isNameChar c = true ↔
    0x21 ≤ c.toNat ∧ c.toNat ≤ 0x7E ∧ c ∉ ['=', '!', '(', ')', ';', ',', '.'] := by
  simp [isNameChar, Text.isGraphic, isReserved, and_assoc]

theorem isIdentifier_iff_isName {text : Text} : isIdentifier text = true ↔ IsName text := by
  simp only [isIdentifier_iff, isNameChar_iff, IsName]

-- Names with single points between them, and the text that they make.
inductive Dotted : List Text → Text → Prop where
  | single {name : Text} (h : IsName name) : Dotted [name] name
  | cons {name rest : Text} {names : List Text} (h : IsName name) (hd : Dotted names rest) :
      Dotted (name :: names) (name ++ '.' :: rest)

namespace Dotted

variable {names : List Text} {text : Text}

theorem ne_nil (h : Dotted names text) : names ≠ [] := by
  cases h <;> exact List.cons_ne_nil _ _

theorem isName (h : Dotted names text) : ∀ name ∈ names, IsName name := by
  induction h with
  | single h => exact List.forall_mem_singleton.mpr h
  | cons h _ ih => exact List.forall_mem_cons.mpr ⟨h, ih⟩

theorem eq_join (h : Dotted names text) : text = Text.join '.' names := by
  induction h with
  | single h => rfl
  | @cons name rest names _ hd ih =>
    cases names with
    | nil => exact absurd rfl hd.ne_nil
    | cons next names =>
      rw [ih]
      rfl

theorem join (hne : names ≠ []) (hn : ∀ name ∈ names, IsName name) :
    Dotted names (Text.join '.' names) := by
  induction names with
  | nil => exact absurd rfl hne
  | cons name names ih =>
    obtain ⟨hname, hnames⟩ := List.forall_mem_cons.mp hn
    cases names with
    | nil => exact .single hname
    | cons next names => exact .cons hname (ih (List.cons_ne_nil _ _) hnames)

end Dotted

def IsDotted (text : Text) : Prop := ∃ names, Dotted names text

-- The two ways of writing a path: bare, or in the brackets that ask for the size of a collection.
structure Spells (text : Text) (names : List Text) (dotted : Text) (sizeCheck : Bool) : Prop where
  isDotted : Dotted names dotted
  text_eq : text = if sizeCheck then "count(".toList ++ dotted ++ ")".toList else dotted

namespace Path

theorem segments_dotted (path : Path) : Dotted path.segments path.dotted :=
  .join path.segments_ne_nil fun segment hs =>
    isIdentifier_iff_isName.mp (path.isIdentifier segment hs)

theorem exists_of_dotted {names : List Text} {dotted : Text} (h : Dotted names dotted)
    (sizeCheck : Bool) :
    ∃ path : Path, path.segments = names ∧ path.dotted = dotted ∧ path.sizeCheck = sizeCheck := by
  let path : Path :=
    ⟨names, sizeCheck, h.ne_nil, fun name hn => isIdentifier_iff_isName.mpr (h.isName name hn)⟩
  exact ⟨path, rfl, h.eq_join.symm, rfl⟩

theorem ofDotted_eq_ok_iff {text : Text} {sizeCheck : Bool} {path : Path} :
    ofDotted text sizeCheck = .ok path ↔ path.dotted = text ∧ path.sizeCheck = sizeCheck := by
  constructor
  · exact dotted_of_ofDotted
  · rintro ⟨rfl, rfl⟩
    exact path.ofDotted_dotted path.sizeCheck

theorem isDotted_iff {text : Text} (sizeCheck : Bool) :
    IsDotted text ↔ ∃ path, ofDotted text sizeCheck = .ok path := by
  constructor
  · rintro ⟨names, hd⟩
    obtain ⟨path, -, hdotted, hsize⟩ := exists_of_dotted hd sizeCheck
    exact ⟨path, ofDotted_eq_ok_iff.mpr ⟨hdotted, hsize⟩⟩
  · rintro ⟨path, hp⟩
    exact ⟨path.segments, (ofDotted_eq_ok_iff.mp hp).1 ▸ path.segments_dotted⟩

theorem ofText_eq_ok_iff {text : Text} {path : Path} : ofText text = .ok path ↔ path.text = text := by
  constructor
  · exact text_of_ofText
  · rintro rfl
    exact path.ofText_text

theorem spells_iff {text : Text} {names : List Text} {dotted : Text} {sizeCheck : Bool} :
    Spells text names dotted sizeCheck ↔ ∃ path : Path,
      path.text = text ∧ path.segments = names ∧ path.dotted = dotted ∧
        path.sizeCheck = sizeCheck := by
  constructor
  · rintro ⟨hd, rfl⟩
    obtain ⟨path, hsegments, hdotted, hsize⟩ := exists_of_dotted hd sizeCheck
    refine ⟨path, ?_, hsegments, hdotted, hsize⟩
    rw [text, hdotted, hsize]
    rfl
  · rintro ⟨path, rfl, rfl, rfl, rfl⟩
    exact ⟨path.segments_dotted, rfl⟩

-- Exactly the texts of the grammar are read as paths. A path has the names of the text in their order,
-- knows which of the two ways the text was written, and is written as this text again. There is no
-- second way to read a text, and every path, however it was made, is read from its own text.
theorem ofText_spells :
    (∀ text, (∃ path, ofText text = .ok path) ↔
      ∃ names dotted sizeCheck, Spells text names dotted sizeCheck) ∧
    (∀ text names dotted sizeCheck, Spells text names dotted sizeCheck ↔
      ∃ path, ofText text = .ok path ∧ path.text = text ∧ path.segments = names ∧
        path.dotted = dotted ∧ path.sizeCheck = sizeCheck) ∧
    ∀ path : Path, ofText path.text = .ok path := by
  refine ⟨fun text => ⟨?_, ?_⟩, fun text names dotted sizeCheck => ?_, ofText_text⟩
  · rintro ⟨path, hp⟩
    exact ⟨_, _, _, spells_iff.mpr ⟨path, text_of_ofText hp, rfl, rfl, rfl⟩⟩
  · rintro ⟨names, dotted, sizeCheck, hs⟩
    obtain ⟨path, ht, -⟩ := spells_iff.mp hs
    exact ⟨path, ofText_eq_ok_iff.mpr ht⟩
  · rw [spells_iff]
    refine exists_congr fun path => ⟨?_, And.right⟩
    rintro ⟨ht, hrest⟩
    exact ⟨ofText_eq_ok_iff.mpr ht, ht, hrest⟩

end Path

end RecordFilter
