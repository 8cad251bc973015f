import RecordFilter.Fault
import RecordFilter.Text.Blank

namespace RecordFilter

-- The state of the brackets of a text: all closed, some left open, or one that closes
-- nothing, with the position of the first such.
inductive Balance where
  | even
  | unclosed
  | stray (position : Nat)
  deriving DecidableEq

def balance : Nat → Nat → Text → Balance
  | 0, _, [] => .even
  | _ + 1, _, [] => .unclosed
  | depth, position, c :: rest =>
    if c = '(' then balance (depth + 1) (position + 1) rest
    else if c = ')' then
      match depth with
      | 0 => .stray position
      | depth + 1 => balance depth (position + 1) rest
    else balance depth (position + 1) rest

-- The start is a position in the whole text.
structure Part where
  text : Text
  start : Nat
  connective : Option Connective
  deriving DecidableEq

namespace Expression

-- The text up to the first connective outside brackets, and the texts behind the
-- connectives from there on.
def cut : Nat → Text → Text × List (Connective × Text)
  | _, [] => ([], [])
  | depth, c :: rest =>
    match depth, Connective.ofSymbol? c with
    | 0, some connective =>
      let (first, more) := cut 0 rest
      ([], (connective, first) :: more)
    | depth, _ =>
      let inner := if c = '(' then depth + 1 else if c = ')' then depth - 1 else depth
      let (first, more) := cut inner rest
      (c :: first, more)

def parts (start : Nat) (text : Text) : List (Connective × Text) → List Part
  | [] => [⟨text, start, none⟩]
  | (connective, next) :: more =>
    ⟨text, start, some connective⟩ :: parts (start + text.length + 1) next more

def danglingEnd? : List Part → Option Text
  | [part, last] =>
    match part.connective with
    | some connective => if last.text.isEmpty then some (part.text ++ [connective.symbol]) else none
    | none => none
  | _ :: rest => danglingEnd? rest
  | [] => none

-- The start is where the text begins in a larger one, so that positions stay absolute.
def split (text : Text) (start : Nat) : Except Fault (List Part) :=
  if Text.onlyBlank text then .error .emptyExpression
  else match balance 0 start text with
    | .stray position => .error (.unexpectedClosingBracket position)
    | .unclosed => .error (.unmatchedBrackets text)
    | .even =>
      let (first, more) := cut 0 text
      let parts := parts start first more
      match danglingEnd? parts with
      | some ending => .error (.danglingOperator ending)
      | none => .ok parts

def unwrapped? (text : Text) : Option Text :=
  ((Text.dropLead? ['('] text).bind (Text.dropTail? [')'])).filter
    fun inner => balance 0 0 inner = .even

end Expression

end RecordFilter
