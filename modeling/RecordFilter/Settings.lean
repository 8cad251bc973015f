import RecordFilter.Table
import RecordFilter.Value.Literal

namespace RecordFilter

-- The options that a filter language is set up with. Aliases map names to dotted
-- paths, and type hints declare the types of names in bags.
structure Settings (κ : Type) where
  singleEquals : Bool := false
  wildcardCaseSensitive : Bool := true
  formats : Formats := {}
  aliases : Table Text := .empty
  typeHints : Table (ValueType κ) := .empty

namespace Settings

variable {κ : Type}

def singleEqualsKey : Text := "fiql.support.single.equals.operator".toList

def wildcardCaseSensitiveKey : Text := "search.wildcard.case.sensitive".toList

def dateFormatKey : Text := "search.date-format".toList

def dateTimeFormatKey : Text := "search.datetime-format".toList

-- Flags are on when their text is the word true, in any case of ASCII letters.
def isOn (text : Text) : Bool := Text.lower text = "true".toList

-- Reads the settings that a table of named texts has. All other names are ignored.
def ofProperties (properties : Table Text) : Settings κ :=
  let standard : Settings κ := {}
  { standard with
    singleEquals := ((properties.find? singleEqualsKey).map isOn).getD standard.singleEquals
    wildcardCaseSensitive :=
      ((properties.find? wildcardCaseSensitiveKey).map isOn).getD standard.wildcardCaseSensitive
    formats :=
      { date := (properties.find? dateFormatKey).getD standard.formats.date
        dateTime := (properties.find? dateTimeFormatKey).getD standard.formats.dateTime } }

end Settings

end RecordFilter
