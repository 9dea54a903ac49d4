import Stylesheet.Json.Binary64
import Stylesheet.Text.Quoted

/-!
# Faults

What can be wrong with a JSON text, and how it is said.
-/

namespace Stylesheet.Json

inductive Number where
  | integer (value : Int)
  | float (negative : Bool) (magnitude : Binary64)
deriving DecidableEq

def Number.text : Number → Text
  | .integer value => (if value < 0 then ['-'] else []) ++ Nat.toDigits 10 value.natAbs
  | .float negative magnitude => if negative then '-' :: magnitude.text else magnitude.text

/-- A value that is not of the expected shape. -/
inductive Found where
  | null
  | bool (value : Bool)
  | number (value : Number)
  | string (value : Text)
  | sequence
  | map
deriving DecidableEq

/-- The shape that a value has to have. -/
inductive Expected where
  | text
  | count
  | flag
  | sequence
  | record (name : Text)
deriving DecidableEq

inductive Fault where
  | endOfValue
  | endOfString
  | endOfList
  | endOfObject
  | expectedValue
  | expectedIdent
  | expectedColon
  | expectedListEnd
  | expectedObjectEnd
  | keyNotString
  | trailingComma
  | trailingCharacters
  | invalidNumber
  | numberOutOfRange
  | invalidEscape
  | loneSurrogate
  | unpairedSurrogate
  | controlCharacter
  | recursionLimit
  | missingField (key : Text)
  | duplicateField (key : Text)
  | invalidType (found : Found) (expected : Expected)
  | negativeCount (value : Int)
  | invalidLength (length : Nat) (name : Text) (fields : Nat)
  | noVariant
deriving DecidableEq

/-- A text ends too early, is not JSON, or is JSON of another shape. -/
inductive Category where
  | eof
  | notJson
  | data
deriving DecidableEq

def Category.name : Category → Text
  | .eof => "eof".toList
  | .notJson => "syntax".toList
  | .data => "data".toList

/-- Words between grave accents. -/
def quoteMark (text : Text) : Text :=
  '\x60' :: text ++ ['\x60']

def Found.describe : Found → Text
  | .null => "null".toList
  | .bool value => "boolean ".toList ++ quoteMark (if value then "true".toList else "false".toList)
  | .number (.integer value) => "integer ".toList ++ quoteMark (Number.integer value).text
  | .number (.float negative magnitude) =>
      "floating point ".toList ++ quoteMark (Number.float negative magnitude).text
  | .string value => "string ".toList ++ value.quoted
  | .sequence => "sequence".toList
  | .map => "map".toList

def Expected.describe : Expected → Text
  | .text => "a string".toList
  | .count => "usize".toList
  | .flag => "a boolean".toList
  | .sequence => "a sequence".toList
  | .record name => "struct ".toList ++ name

namespace Fault

def category : Fault → Category
  | .endOfValue | .endOfString | .endOfList | .endOfObject => .eof
  | .missingField _ | .duplicateField _ | .invalidType .. | .negativeCount _ | .invalidLength ..
  | .noVariant => .data
  | _ => .notJson

def message : Fault → Text
  | .endOfValue => "EOF while parsing a value".toList
  | .endOfString => "EOF while parsing a string".toList
  | .endOfList => "EOF while parsing a list".toList
  | .endOfObject => "EOF while parsing an object".toList
  | .expectedValue => "expected value".toList
  | .expectedIdent => "expected ident".toList
  | .expectedColon => "expected ".toList ++ quoteMark [':']
  | .expectedListEnd => "expected ".toList ++ quoteMark [','] ++ " or ".toList ++ quoteMark [']']
  | .expectedObjectEnd => "expected ".toList ++ quoteMark [','] ++ " or ".toList ++ quoteMark ['}']
  | .keyNotString => "key must be a string".toList
  | .trailingComma => "trailing comma".toList
  | .trailingCharacters => "trailing characters".toList
  | .invalidNumber => "invalid number".toList
  | .numberOutOfRange => "number out of range".toList
  | .invalidEscape => "invalid escape".toList
  | .loneSurrogate => "lone leading surrogate in hex escape".toList
  | .unpairedSurrogate => "unexpected end of hex escape".toList
  | .controlCharacter =>
      "control character (\\u0000-\\u001F) found while parsing a string".toList
  | .recursionLimit => "recursion limit exceeded".toList
  | .missingField key => "missing field ".toList ++ quoteMark key
  | .duplicateField key => "duplicate field ".toList ++ quoteMark key
  | .invalidType found expected =>
      "invalid type: ".toList ++ found.describe ++ ", expected ".toList ++ expected.describe
  | .negativeCount value =>
      "invalid value: ".toList ++ (Found.number (.integer value)).describe ++
        ", expected ".toList ++ Expected.count.describe
  | .invalidLength length name fields =>
      "invalid length ".toList ++ Nat.toDigits 10 length ++ ", expected ".toList ++
        (Expected.record name).describe ++ " with ".toList ++ Nat.toDigits 10 fields ++
        " elements".toList
  | .noVariant => "data did not match any variant of untagged enum MediaRule".toList

end Fault

end Stylesheet.Json
