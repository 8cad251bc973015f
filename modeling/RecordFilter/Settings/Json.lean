import RecordFilter.Settings

namespace RecordFilter

-- A value of the JSON notation, as far as settings need it. Numbers are only checked,
-- and a string with half of a surrogate pair has no content.
inductive Json where
  | null
  | bool (value : Bool)
  | number
  | string (content : Option Text)
  | array (elements : List Json)
  | object (members : List (Option Text × Json))

namespace Json

def isSpace (c : Char) : Bool := c == ' ' || c == '\t' || c == '\n' || c == '\r'

def dropSpace (text : Text) : Text := text.dropWhile isSpace

def hexValue? (c : Char) : Option Nat :=
  if Text.isDigit c then some (Text.digitValue c)
  else if 'a'.toNat ≤ c.toNat ∧ c.toNat ≤ 'f'.toNat then some (c.toNat - 'a'.toNat + 10)
  else if 'A'.toNat ≤ c.toNat ∧ c.toNat ≤ 'F'.toNat then some (c.toNat - 'A'.toNat + 10)
  else none

def unit? : Text → Option (Nat × Text)
  | a :: b :: c :: d :: rest => do
    let a ← hexValue? a
    let b ← hexValue? b
    let c ← hexValue? c
    let d ← hexValue? d
    some (((a * 16 + b) * 16 + c) * 16 + d, rest)
  | _ => none

-- The character that a letter behind a backslash stands for.
def escape? : Char → Option Char
  | '"' => some '"'
  | '\\' => some '\\'
  | '/' => some '/'
  | 'b' => some '\x08'
  | 'f' => some '\x0c'
  | 'n' => some '\n'
  | 'r' => some '\r'
  | 't' => some '\t'
  | _ => none

-- The 16-bit units of a string up to its closing quote, and what follows it. A
-- character that is written plainly is one unit here, however large.
def units? : Nat → Text → Option (List Nat × Text)
  | 0, _ | _, [] => none
  | fuel + 1, c :: rest =>
    if c = '"' then some ([], rest)
    else if c = '\\' then
      match rest with
      | 'u' :: rest => do
        let (unit, rest) ← unit? rest
        let (units, rest) ← units? fuel rest
        some (unit :: units, rest)
      | letter :: rest => do
        let c ← escape? letter
        let (units, rest) ← units? fuel rest
        some (c.toNat :: units, rest)
      | [] => none
    else if c.toNat < 0x20 then none
    else do
      let (units, rest) ← units? fuel rest
      some (c.toNat :: units, rest)

-- Puts the halves of surrogate pairs together. A half on its own is no character.
def characters? : List Nat → Option Text
  | [] => some []
  | unit :: units =>
    if unit < 0xD800 ∨ 0xDFFF < unit then (characters? units).map (Char.ofNat unit :: ·)
    else if 0xDBFF < unit then none
    else match units with
      | low :: units =>
        if 0xDC00 ≤ low ∧ low ≤ 0xDFFF then
          (characters? units).map
            (Char.ofNat (0x10000 + (unit - 0xD800) * 0x400 + (low - 0xDC00)) :: ·)
        else none
      | [] => none

-- A string behind its opening quote.
def string? (text : Text) : Option (Option Text × Text) :=
  (units? (text.length + 1) text).map fun (units, rest) => (characters? units, rest)

def dropDigits? (text : Text) : Option Text :=
  if (text.takeWhile Text.isDigit).isEmpty then none else some (text.dropWhile Text.isDigit)

-- The whole part of a number has no superfluous zero in front.
def dropWhole? : Text → Option Text
  | '0' :: rest => some rest
  | text => dropDigits? text

def dropFraction? : Text → Option Text
  | '.' :: rest => dropDigits? rest
  | text => some text

def dropExponent? : Text → Option Text
  | mark :: rest =>
    if mark = 'e' ∨ mark = 'E' then
      match rest with
      | '+' :: rest | '-' :: rest => dropDigits? rest
      | rest => dropDigits? rest
    else some (mark :: rest)
  | [] => some []

def dropNumber? (text : Text) : Option Text := do
  let unsigned := match text with
    | '-' :: rest => rest
    | text => text
  let rest ← dropWhole? unsigned
  let rest ← dropFraction? rest
  dropExponent? rest

mutual

-- A value and what follows it. The fuel is spent on every value, element and member,
-- so the length of the text is enough of it.
def value? : Nat → Text → Option (Json × Text)
  | 0, _ => none
  | fuel + 1, text =>
    match dropSpace text with
    | '"' :: rest => (string? rest).map fun (content, rest) => (.string content, rest)
    | '[' :: rest =>
      match dropSpace rest with
      | ']' :: rest => some (.array [], rest)
      | rest => (elements? fuel rest).map fun (elements, rest) => (.array elements, rest)
    | '{' :: rest =>
      match dropSpace rest with
      | '}' :: rest => some (.object [], rest)
      | rest => (members? fuel rest).map fun (members, rest) => (.object members, rest)
    | rest =>
      match Text.dropLead? "null".toList rest with
      | some rest => some (.null, rest)
      | none =>
        match Text.dropLead? "true".toList rest with
        | some rest => some (.bool true, rest)
        | none =>
          match Text.dropLead? "false".toList rest with
          | some rest => some (.bool false, rest)
          | none => (dropNumber? rest).map fun rest => (.number, rest)

def elements? : Nat → Text → Option (List Json × Text)
  | 0, _ => none
  | fuel + 1, text => do
    let (element, rest) ← value? fuel text
    match dropSpace rest with
    | ',' :: rest => do
      let (elements, rest) ← elements? fuel rest
      some (element :: elements, rest)
    | ']' :: rest => some ([element], rest)
    | _ => none

def members? : Nat → Text → Option (List (Option Text × Json) × Text)
  | 0, _ => none
  | fuel + 1, text =>
    match dropSpace text with
    | '"' :: rest => do
      let (name, rest) ← string? rest
      match dropSpace rest with
      | ':' :: rest => do
        let (value, rest) ← value? fuel rest
        match dropSpace rest with
        | ',' :: rest => do
          let (members, rest) ← members? fuel rest
          some ((name, value) :: members, rest)
        | '}' :: rest => some ([(name, value)], rest)
        | _ => none
      | _ => none
    | _ => none

end

-- A text that is one value, with nothing but space around it.
def ofText? (text : Text) : Option Json := do
  let (json, rest) ← value? (2 * text.length + 1) text
  if (dropSpace rest).isEmpty then some json else none

def bool? : Json → Option Bool
  | bool value => some value
  | _ => none

def text? : Json → Option Text
  | string content => content
  | _ => none

-- An object as a table, if all its members can be read. The last of several members
-- with one name stands.
def table? {α : Type} (read? : Json → Option α) : Json → Option (Table α)
  | object members => do
    let entries ← members.mapM fun (name, value) => do
      let name ← name
      let value ← read? value
      some (name, value)
    some (.ofList entries)
  | _ => none

end Json

namespace Settings

variable {κ : Type}

-- The settings as one object names them. Their order is that of an array, too.
def jsonKeys : List Text :=
  ["support_single_equals".toList, "wildcard_case_sensitive".toList, "date_format".toList,
    "datetime_format".toList, "aliases".toList, "type_hints".toList]

def readType? (json : Json) : Option (ValueType κ) :=
  json.text?.bind fun name => (Scalar.ofName? name).map .scalar

-- Reads a setting if it is there. What is there has to be valid.
def optional? {α : Type} (standard : α) (read? : Json → Option α) : Option Json → Option α
  | none => some standard
  | some json => read? json

-- Puts the settings together from their values.
def ofValues? (value? : Text → Option Json) : Option (Settings κ) := do
  let standard : Settings κ := {}
  let singleEquals ←
    optional? standard.singleEquals Json.bool? (value? "support_single_equals".toList)
  let wildcardCaseSensitive ←
    optional? standard.wildcardCaseSensitive Json.bool? (value? "wildcard_case_sensitive".toList)
  let date ← optional? standard.formats.date Json.text? (value? "date_format".toList)
  let dateTime ← optional? standard.formats.dateTime Json.text? (value? "datetime_format".toList)
  let aliases ← optional? .empty (Json.table? Json.text?) (value? "aliases".toList)
  let typeHints ← optional? .empty (Json.table? readType?) (value? "type_hints".toList)
  some { singleEquals, wildcardCaseSensitive, formats := { date, dateTime }, aliases, typeHints }

-- Members of an object may come in any order. Unknown ones are ignored, but no known
-- one may be repeated. An array has the values in order and may end early.
def ofJson? : Json → Option (Settings κ)
  | .object members => do
    let named ← members.mapM fun (name, value) => name.map fun name => (name, value)
    let known := named.filter fun (name, _) => jsonKeys.contains name
    if (known.map Prod.fst).Nodup then ofValues? fun key => known.lookup key else none
  | .array values =>
    if values.length ≤ jsonKeys.length then ofValues? fun key => (jsonKeys.zip values).lookup key
    else none
  | _ => none

def ofJsonText (text : Text) : Except Fault (Settings κ) :=
  match (Json.ofText? text).bind ofJson? with
  | some settings => .ok settings
  | none => .error .invalidSettings

end Settings

end RecordFilter
