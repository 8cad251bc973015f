import RecordFilter.Text

namespace RecordFilter.Text

-- A run of code points, stride apart from first to last, that a case mapping
-- moves all by one distance. The first of them goes to image.
structure CaseRun where
  first : Nat
  last : Nat
  stride : Nat
  image : Nat

def CaseRun.apply? (run : CaseRun) (code : Nat) : Option Nat :=
  if run.first ≤ code ∧ code ≤ run.last ∧ (code - run.first) % run.stride = 0 then
    some (run.image + (code - run.first))
  else none

-- A mapping of single characters. Characters outside all runs stay.
abbrev CaseMap := List CaseRun

def CaseMap.apply (runs : CaseMap) (c : Char) : Char :=
  ((runs.findSome? (fun run => run.apply? c.toNat)).map Char.ofNat).getD c

end RecordFilter.Text
