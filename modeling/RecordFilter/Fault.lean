import RecordFilter.Comparator
import RecordFilter.Number.Integer

namespace RecordFilter

-- Why a live value does not suit its comparison.
inductive Mismatch where
  | sizeOfSingleValue
  | recordAsValue
  | incomparable (live literal : Text)
  | unreadable (text typeName : Text)
  | notNested (segment : Text)
  deriving DecidableEq

-- Why a filter cannot be read or evaluated.
inductive Fault where
  | emptyExpression
  | unexpectedClosingBracket (position : Nat)
  | unmatchedBrackets (expression : Text)
  | danglingOperator (ending : Text)
  | notAComparison (text : Text)
  | invalidPath (text : Text)
  | noConditions (expression : Text)
  | nestingTooDeep (limit : Nat)
  | unknownProperty (path segment : Text)
  | notNested (path segment : Text)
  | notAValue (path : Text)
  | invalidAlias (name target : Text)
  | unreadable (text typeName : Text)
  | unordered (comparator : Comparator) (typeName : Text)
  | mismatch (property : Text) (cause : Mismatch)
  | unresolvable (path : Text)
  | invalidSettings
  deriving DecidableEq

-- The stage of the work that a fault belongs to.
inductive Category where
  | grammar
  | resolution
  | coercion
  | evaluation
  | configuration
  deriving DecidableEq

def unreadableMessage (text typeName : Text) : Text :=
  "Cannot convert \"".toList ++ text ++ "\" to ".toList ++ typeName

def Mismatch.message : Mismatch → Text
  | sizeOfSingleValue => "size check on a single value".toList
  | recordAsValue => "record compared to a value".toList
  | incomparable live literal =>
    "cannot compare ".toList ++ live ++ " value with ".toList ++ literal ++ " literal".toList
  | unreadable text typeName => unreadableMessage text typeName
  | notNested segment => '\'' :: segment ++ "' is not a nested record".toList

namespace Fault

def category : Fault → Category
  | emptyExpression | unexpectedClosingBracket _ | unmatchedBrackets _ | danglingOperator _
  | notAComparison _ | invalidPath _ | noConditions _ | nestingTooDeep _ => .grammar
  | unknownProperty _ _ | notNested _ _ | notAValue _ | invalidAlias _ _ => .resolution
  | unreadable _ _ => .coercion
  | unordered _ _ | mismatch _ _ | unresolvable _ => .evaluation
  | invalidSettings => .configuration

def isGrammar (fault : Fault) : Bool := fault.category = .grammar

def message : Fault → Text
  | emptyExpression => "Empty expression".toList
  | unexpectedClosingBracket position =>
    "Unexpected closing bracket at position ".toList ++ Text.ofNat position
  | unmatchedBrackets expression =>
    "Unmatched opening and closing brackets in expression: ".toList ++ expression
  | danglingOperator ending =>
    "Dangling operator at the end of expression: ...".toList ++ ending
  | notAComparison text => "Not a comparison expression: ".toList ++ text
  | invalidPath text => "Invalid property path: ".toList ++ text
  | noConditions expression => "Expression yields no conditions: ".toList ++ expression
  | nestingTooDeep limit =>
    "Brackets nested deeper than ".toList ++ Text.ofNat limit ++ " levels".toList
  | unknownProperty path segment =>
    "Unknown property '".toList ++ segment ++ "' in path '".toList ++ path ++ ['\'']
  | notNested path segment =>
    "Property '".toList ++ segment ++ "' in path '".toList ++ path ++
      "' is not a nested record".toList
  | notAValue path =>
    "Property '".toList ++ path ++ "' is a record and cannot be compared to a value".toList
  | invalidAlias name target =>
    "Alias '".toList ++ name ++ "' maps to an invalid property path '".toList ++ target ++ ['\'']
  | unreadable text typeName => unreadableMessage text typeName
  | unordered comparator typeName =>
    "Operator ".toList ++ comparator.name ++ " is not supported for ".toList ++ typeName ++
      " values".toList
  | mismatch property cause =>
    "Type mismatch on '".toList ++ property ++ "': ".toList ++ cause.message
  | unresolvable path => "Cannot resolve value of '".toList ++ path ++ ['\'']
  | invalidSettings => "Invalid configuration".toList

end Fault

end RecordFilter
