import Stylesheet.Text

/-!
# JSON values

The JSON values that documents are written as, and their two layouts. Between brackets the pretty
layout starts a new line for each item; the compact one adds nothing.
-/

namespace Stylesheet

inductive Json where
  | null
  | bool (value : Bool)
  | number (value : Nat)
  | string (value : Text)
  | array (items : List Json)
  | object (members : List (Text × Json))

namespace Json

inductive Layout where
  | compact
  | pretty
deriving DecidableEq

namespace Layout

/-- What stands between two items, or between an item and a bracket. -/
def newline : Layout → (indent : Nat) → Text
  | compact, _ => []
  | pretty, indent => '\n' :: List.replicate (2 * indent) ' '

/-- What stands between a key and its value. -/
def colon : Layout → Text
  | compact => [':']
  | pretty => [':', ' ']

end Layout

/-- The escape of a character below the space that has no letter of its own. -/
def unicodeEscape (c : Char) : Text :=
  ['\\', 'u', '0', '0', Nat.digitChar (c.toNat / 16), Nat.digitChar (c.toNat % 16)]

/-- A character as it stands in a string literal. -/
def escape (c : Char) : Text :=
  if c = '"' then ['\\', '"']
  else if c = '\\' then ['\\', '\\']
  else if c = '\x08' then ['\\', 'b']
  else if c = '\t' then ['\\', 't']
  else if c = '\n' then ['\\', 'n']
  else if c = '\x0c' then ['\\', 'f']
  else if c = '\r' then ['\\', 'r']
  else if c < ' ' then unicodeEscape c
  else [c]

/-- A text as a string literal. -/
def quote (text : Text) : Text :=
  '"' :: text.flatMap escape ++ ['"']

mutual

/-- The text of a value whose first line is indented by `indent` levels. -/
def write (layout : Layout) (indent : Nat) : Json → Text
  | .null => "null".toList
  | .bool true => "true".toList
  | .bool false => "false".toList
  | .number value => Nat.toDigits 10 value
  | .string value => quote value
  | .array [] => ['[', ']']
  | .array (item :: items) =>
      '[' :: layout.newline (indent + 1) ++ write layout (indent + 1) item ++
        writeItems layout (indent + 1) items ++ layout.newline indent ++ [']']
  | .object [] => ['{', '}']
  | .object (member :: members) =>
      '{' :: layout.newline (indent + 1) ++ writeMember layout (indent + 1) member ++
        writeMembers layout (indent + 1) members ++ layout.newline indent ++ ['}']

/-- The items of an array that follow another one. -/
def writeItems (layout : Layout) (indent : Nat) : List Json → Text
  | [] => []
  | item :: items =>
      ',' :: layout.newline indent ++ write layout indent item ++ writeItems layout indent items

/-- The members of an object that follow another one. -/
def writeMembers (layout : Layout) (indent : Nat) : List (Text × Json) → Text
  | [] => []
  | member :: members =>
      ',' :: layout.newline indent ++ writeMember layout indent member ++
        writeMembers layout indent members

def writeMember (layout : Layout) (indent : Nat) : Text × Json → Text
  | (key, value) => quote key ++ layout.colon ++ write layout indent value

end

/-- The text of a value. -/
def print (layout : Layout) (json : Json) : Text :=
  write layout 0 json

end Json

end Stylesheet
