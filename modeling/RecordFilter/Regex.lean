import RecordFilter.Text.CaseFold

namespace RecordFilter

-- The parts of an expression that wildcards are made of: both anchors, single characters and runs of
-- any characters.
inductive Regex.Item where
  | start
  | finish
  | char (c : Char)
  | run
  deriving DecidableEq

namespace Regex

def isMeta (c : Char) : Bool := "\\.+*?()|[]\x7b\x7d^$#&-~".toList.contains c

def escape (text : Text) : Text := text.flatMap fun c => if isMeta c then ['\\', c] else [c]

-- Reads an expression of these parts only. An expression with any other operator is none of them.
def read? : Text → Option (List Item)
  | [] => some []
  | '\\' :: c :: rest => if isMeta c then (read? rest).map (.char c :: ·) else none
  | '.' :: '*' :: rest => (read? rest).map (.run :: ·)
  | '^' :: rest => (read? rest).map (.start :: ·)
  | '$' :: rest => (read? rest).map (.finish :: ·)
  | c :: rest => if isMeta c then none else (read? rest).map (.char c :: ·)

end Regex

structure Regex where
  text : Text
  items : List Regex.Item
  items_eq : Regex.read? text = some items
  ignoreCase : Bool
  dotAll : Bool

namespace Regex

def build? (builds : Regex → Bool) (text : Text) (ignoreCase dotAll : Bool) : Option Regex :=
  match h : read? text with
  | none => none
  | some items =>
    let regex : Regex := ⟨text, items, h, ignoreCase, dotAll⟩
    if builds regex then some regex else none

-- Bytes for the states of one part, in a program that goes byte by byte.
def Item.size : Item → Nat
  | start | finish => 32
  | char c => 32 * c.utf8Size
  | run => 456

def programSize (items : List Item) : Nat := items.foldr (fun item total => item.size + total) 0

-- About what an engine takes that keeps its programs below ten mebibytes.
def isSmall (regex : Regex) : Bool := programSize regex.items ≤ 10485760

def accepts (regex : Regex) (c d : Char) : Bool :=
  c = d || regex.ignoreCase && Text.foldCase c = Text.foldCase d

def passes (regex : Regex) (c : Char) : Bool := regex.dotAll || c ≠ '\n'

-- At which positions of a text an expression matches, from those at which it does without its first
-- part. The last position is the one behind the text.
def prepend (regex : Regex) (item : Item) : Bool → Text → List Bool → List Bool
  | _, _, [] => []
  | first, [], behind :: _ =>
    [match item with
      | .start => first && behind
      | .finish | .run => behind
      | .char _ => false]
  | first, c :: text, behind :: rest =>
    let next := regex.prepend item false text rest
    (match item with
      | .start => first && behind
      | .finish => false
      | .char d => regex.accepts d c && rest.headD false
      | .run => behind || regex.passes c && next.headD false) :: next

def positions (regex : Regex) (first : Bool) (text : Text) : List Item → List Bool
  | [] => List.replicate (text.length + 1) true
  | item :: items => regex.prepend item first text (regex.positions first text items)

def isMatch (regex : Regex) (text : Text) : Bool := (regex.positions true text regex.items).any id

end Regex

end RecordFilter
