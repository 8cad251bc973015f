import RecordFilter.Text

namespace RecordFilter

-- How a live value has to stand to the literal of a comparison.
inductive Comparator where
  | equals
  | notEquals
  | greaterThan
  | greaterOrEquals
  | lessThan
  | lessOrEquals
  deriving DecidableEq

namespace Comparator

def all : List Comparator :=
  [equals, notEquals, greaterThan, greaterOrEquals, lessThan, lessOrEquals]

def name : Comparator → Text
  | equals => "EQUALS".toList
  | notEquals => "NOT_EQUALS".toList
  | greaterThan => "GREATER_THAN".toList
  | greaterOrEquals => "GREATER_OR_EQUALS".toList
  | lessThan => "LESS_THAN".toList
  | lessOrEquals => "LESS_OR_EQUALS".toList

-- The spelling that is written, whatever spellings are read.
def token : Comparator → Text
  | equals => "==".toList
  | notEquals => "!=".toList
  | greaterThan => "=gt=".toList
  | greaterOrEquals => "=ge=".toList
  | lessThan => "=lt=".toList
  | lessOrEquals => "=le=".toList

-- Whether a value satisfies the comparison, by its order relative to the literal.
def accepts : Comparator → Ordering → Bool
  | equals, ordering => ordering == .eq
  | notEquals, ordering => ordering != .eq
  | greaterThan, ordering => ordering == .gt
  | greaterOrEquals, ordering => ordering != .lt
  | lessThan, ordering => ordering == .lt
  | lessOrEquals, ordering => ordering != .gt

-- Comparisons that need the values to have an order, and not just an equality.
def isOrdering : Comparator → Bool
  | equals | notEquals => false
  | _ => true

def insertLonger (entry : Text × Comparator) : List (Text × Comparator) → List (Text × Comparator)
  | [] => [entry]
  | first :: rest =>
    if first.1.length ≤ entry.1.length then entry :: first :: rest
    else first :: insertLonger entry rest

-- Spellings of one length stay in their order.
def longestFirst (entries : List (Text × Comparator)) : List (Text × Comparator) :=
  entries.foldr insertLonger []

-- The spellings that are read. The single equals sign is an older spelling of equality that is read
-- only on request.
def tokens (singleEquals : Bool) : List (Text × Comparator) :=
  longestFirst (all.map (fun comparator => (comparator.token, comparator)) ++
    if singleEquals then [(['='], equals)] else [])

def ofToken? (singleEquals : Bool) (token : Text) : Option Comparator :=
  (tokens singleEquals).lookup token

end Comparator

-- How the parts of an expression are put together.
inductive Connective where
  | and
  | or
  deriving DecidableEq

namespace Connective

def symbol : Connective → Char
  | and => ';'
  | or => ','

def ofSymbol? (c : Char) : Option Connective :=
  if c = and.symbol then some and else if c = or.symbol then some or else none

def name : Connective → Text
  | and => "AND".toList
  | or => "OR".toList

theorem ofSymbol?_symbol (connective : Connective) :
    ofSymbol? connective.symbol = some connective := by
  cases connective <;> rfl

theorem symbol_of_ofSymbol? {c : Char} {connective : Connective}
    (hc : ofSymbol? c = some connective) : c = connective.symbol := by
  simp only [ofSymbol?] at hc
  split at hc
  · next h => cases hc; exact h
  · split at hc
    · next h => cases hc; exact h
    · cases hc

end Connective

end RecordFilter
