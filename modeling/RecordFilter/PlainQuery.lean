import RecordFilter.Comparator

namespace RecordFilter

namespace PlainQuery

-- A name may end in a word for a bound, as long as something is before it.
def bound (name : Text) : Text × Comparator :=
  match Text.dropTail? "From".toList name, Text.dropTail? "Till".toList name with
  | some (c :: property), _ => (c :: property, .greaterOrEquals)
  | _, some (c :: property) => (c :: property, .lessOrEquals)
  | _, _ => (name, .equals)

def term (name value : Text) : Text :=
  let (property, comparator) := bound name
  property ++ comparator.token ++ value

def addTerm (name term : Text) : List (Text × List Text) → List (Text × List Text)
  | [] => [(name, [term])]
  | (key, terms) :: groups =>
    if key = name then (key, terms ++ [term]) :: groups
    else (key, terms) :: addTerm name term groups

-- The names stay in the order in which they came first. Pairs with an empty name or value
-- do not count.
def groups (pairs : List (Text × Text)) : List (Text × List Text) :=
  (pairs.filter fun (name, value) => !name.isEmpty && !value.isEmpty).foldl
    (fun groups (name, value) => addTerm name (term name value) groups) []

def bracket (connective : Connective) : List Text → Text
  | [member] => member
  | members => '(' :: Text.join connective.symbol members ++ [')']

-- A filter for a plain query of names and values: the values of one name are
-- alternatives, and all names have to be satisfied.
def toFilter? (pairs : List (Text × Text)) : Option Text :=
  match groups pairs with
  | [] => none
  | groups => some (bracket .and (groups.map fun (_, terms) => bracket .or terms))

end PlainQuery

end RecordFilter
