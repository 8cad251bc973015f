import RecordFilter.Condition

namespace RecordFilter

def Comparison.written {κ : Type} (comparison : Comparison κ) : Text :=
  Path.wrapped comparison.name comparison.sizeCheck ++ comparison.comparator.token ++
    comparison.literal

namespace Condition

variable {κ : Type}

mutual

-- The text of a condition as part of a larger one: a group is put into brackets.
def bracketed : Condition κ → Text
  | leaf comparison => comparison.written
  | group connective children =>
    '(' :: Text.join connective.symbol (bracketedAll children) ++ [')']

def bracketedAll : List (Condition κ) → List Text
  | [] => []
  | child :: rest => child.bracketed :: bracketedAll rest

end

def written : Condition κ → Text
  | leaf comparison => comparison.written
  | group connective children => Text.join connective.symbol (bracketedAll children)

end Condition

end RecordFilter
