import RecordFilter.Fault

namespace RecordFilter

-- Characters with a meaning of their own in expressions and paths.
def isReserved (c : Char) : Bool :=
  c == '=' || c == '!' || c == '(' || c == ')' || c == ';' || c == ',' || c == '.'

-- Characters of a name: all that leave ink and are not reserved.
def isNameChar (c : Char) : Bool := Text.isGraphic c && !isReserved c

def isIdentifier (text : Text) : Bool := !text.isEmpty && text.all isNameChar

theorem isIdentifier_iff {text : Text} :
    isIdentifier text = true ↔ text ≠ [] ∧ ∀ c ∈ text, isNameChar c = true := by
  simp [isIdentifier]

-- The way from a record to one of its properties, by names through nested records. A
-- path may ask for the size of a collection instead of its elements.
structure Path where
  segments : List Text
  sizeCheck : Bool
  segments_ne_nil : segments ≠ []
  isIdentifier : ∀ segment ∈ segments, isIdentifier segment = true
  deriving DecidableEq

namespace Path

def countOpen : Text := "count(".toList

-- Reads names with single points between them.
def ofDotted (text : Text) (sizeCheck : Bool) : Except Fault Path :=
  if h : ∀ segment ∈ Text.split '.' text, RecordFilter.isIdentifier segment = true then
    .ok ⟨Text.split '.' text, sizeCheck, Text.split_ne_nil '.' text, h⟩
  else .error (.invalidPath text)

-- The text between the opening of a size check and its closing bracket.
def counted? (text : Text) : Option Text :=
  (Text.dropLead? countOpen text).bind (Text.dropTail? [')'])

-- Reads a path as written in a comparison.
def ofText (text : Text) : Except Fault Path :=
  match counted? text with
  | some inner => ofDotted inner true
  | none => ofDotted text false

def withSizeCheck (path : Path) (sizeCheck : Bool) : Path := { path with sizeCheck }

-- The path without any size check.
def dotted (path : Path) : Text := Text.join '.' path.segments

-- The text of a dotted path, with a size check around it if one is asked for.
def wrapped (dotted : Text) (sizeCheck : Bool) : Text :=
  if sizeCheck then countOpen ++ dotted ++ [')'] else dotted

def text (path : Path) : Text := wrapped path.dotted path.sizeCheck

theorem not_mem_of_isIdentifier {segment : Text} {c : Char}
    (hs : RecordFilter.isIdentifier segment = true) (hc : isReserved c = true) : c ∉ segment := by
  intro hm
  have h := (isIdentifier_iff.mp hs).2 c hm
  simp [isNameChar, hc] at h

theorem split_dotted (path : Path) : Text.split '.' path.dotted = path.segments :=
  Text.split_join '.' path.segments path.segments_ne_nil fun segment hs =>
    not_mem_of_isIdentifier (path.isIdentifier segment hs) rfl

theorem dotted_of_ofDotted {text : Text} {sizeCheck : Bool} {path : Path}
    (h : ofDotted text sizeCheck = .ok path) :
    path.dotted = text ∧ path.sizeCheck = sizeCheck := by
  simp only [ofDotted] at h
  split at h
  · cases h
    exact ⟨Text.join_split '.' text, rfl⟩
  · cases h

theorem ofDotted_dotted (path : Path) (sizeCheck : Bool) :
    ofDotted path.dotted sizeCheck = .ok (path.withSizeCheck sizeCheck) := by
  simp only [ofDotted, split_dotted, withSizeCheck]
  rw [dif_pos path.isIdentifier]

theorem ofDotted_of_isIdentifier {name : Text} (hname : RecordFilter.isIdentifier name = true)
    (sizeCheck : Bool) : ∃ path, ofDotted name sizeCheck = .ok path := by
  have hsplit : ∀ segment ∈ Text.split '.' name, RecordFilter.isIdentifier segment = true := by
    rw [Text.split_of_not_mem '.' name (not_mem_of_isIdentifier hname rfl)]
    exact List.forall_mem_singleton.mpr hname
  exact ⟨_, dif_pos hsplit⟩

end Path

end RecordFilter
