import Stylesheet.Text
import Stylesheet.Text.Invisible

/-!
# Quoted texts

A text in quotes, for messages: quotes, backslashes and characters without a visible form are
escaped.
-/

namespace Stylesheet

/-- A character as it stands in a quoted text. -/
def quotedChar (c : Char) : Text :=
  if c = '"' || c = '\\' then ['\\', c]
  else if c = '\x00' then ['\\', '0']
  else if c = '\t' then ['\\', 't']
  else if c = '\n' then ['\\', 'n']
  else if c = '\r' then ['\\', 'r']
  else if isInvisible c then ['\\', 'u', '{'] ++ Nat.toDigits 16 c.toNat ++ ['}']
  else [c]

def Text.quoted (text : Text) : Text :=
  '"' :: text.flatMap quotedChar ++ ['"']

end Stylesheet
