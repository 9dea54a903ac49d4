/-!
# Texts

A text is the list of its characters. Places in a text are counted in bytes of its UTF-8 form, so
a place may lie past the end of the text or inside a character.
-/

namespace Stylesheet

abbrev Text := List Char

/-- The six blank characters of ASCII. -/
def isBlank (c : Char) : Bool :=
  c = ' ' || c = '\t' || c = '\n' || c = '\x0b' || c = '\x0c' || c = '\r'

/-- The characters that have the Unicode property `White_Space`. -/
def isSpace (c : Char) : Bool :=
  isBlank c || c = '\u0085' || c = '\u00a0' || c = '\u1680' ||
    ('\u2000' ≤ c && c ≤ '\u200a') || c = '\u2028' || c = '\u2029' || c = '\u202f' ||
    c = '\u205f' || c = '\u3000'

/-- An ASCII letter, an ASCII digit or an underscore. -/
def isWordChar (c : Char) : Bool :=
  c.isAlphanum || c = '_'

namespace Text

def trimStart (text : Text) : Text :=
  text.dropWhile isSpace

def trimEnd (text : Text) : Text :=
  (text.reverse.dropWhile isSpace).reverse

/-- The text without the white space at its two ends. -/
def trim (text : Text) : Text :=
  (trimStart text).trimEnd

/-- What follows `word` in a text that begins with it. -/
def after? : (text word : Text) → Option Text
  | text, [] => some text
  | [], _ :: _ => none
  | c :: text, w :: word => if c = w then after? text word else none

/-- The text before the first `mark` and the text after it. -/
def cut? (mark : Char) : Text → Option (Text × Text)
  | [] => none
  | c :: text =>
      if c = mark then some ([], text)
      else (cut? mark text).map fun (front, rest) => (c :: front, rest)

/-- The pieces between the marks of a text, one more than there are marks. -/
def pieces (mark : Char) : Text → List Text
  | [] => [[]]
  | c :: text =>
      if c = mark then [] :: pieces mark text
      else match pieces mark text with
        | [] => [[c]]
        | piece :: others => (c :: piece) :: others

/-- The lines of a text, ended by line feeds except for the last. -/
def lines (text : Text) : List Text :=
  text.pieces '\n'

/-- Lines put together again, with a line feed between neighbours. -/
def unlines (lines : List Text) : Text :=
  ['\n'].intercalate lines

/-- The number of bytes of the UTF-8 form. -/
def byteSize : Text → Nat
  | [] => 0
  | c :: text => c.utf8Size + byteSize text

/-- Cuts a text at a byte offset; there is no cut past the end or inside a character. -/
def splitAtByte : (offset : Nat) → Text → Option (Text × Text)
  | 0, text => some ([], text)
  | _ + 1, [] => none
  | offset + 1, c :: text =>
      if c.utf8Size ≤ offset + 1 then
        (splitAtByte (offset + 1 - c.utf8Size) text).map fun (front, rest) => (c :: front, rest)
      else none

/-- The characters of a text that end at or before a byte offset. -/
def takeBytes : (offset : Nat) → Text → Text
  | _, [] => []
  | offset, c :: text =>
      if c.utf8Size ≤ offset then c :: takeBytes (offset - c.utf8Size) text else []

/-- The line that holds a byte offset, counted from 1. -/
def lineNumber (text : Text) (offset : Nat) : Nat :=
  (text.takeBytes offset).count '\n' + 1

end Text

end Stylesheet
