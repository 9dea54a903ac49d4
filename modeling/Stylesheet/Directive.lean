import Stylesheet.Sheet

/-!
# Directives

The one-line directives `@charset`, `@import`, `@tailwind` and `@config`: a keyword, a value, and a
semicolon.
-/

namespace Stylesheet

namespace Directive

def isQuote (c : Char) : Bool :=
  c = '"' || c = '\''

/-- The quote at the front of a text, and the text after it. -/
def quote? : Text → Option (Char × Text)
  | [] => none
  | c :: text => if isQuote c then some (c, text) else none

/-- A keyword, a value between quotes that need not be alike, and a semicolon. The blanks after the
keyword may be missing unless `spaced`. -/
def quoted (keyword : Text) (spaced : Bool) : Pattern := fun text => do
  let named ← text.after? keyword
  let gap := named.takeWhile isBlank
  guard (!(spaced && gap.isEmpty))
  let (opening, valued) ← quote? (named.dropWhile isBlank)
  let value := valued.takeWhile (!isQuote ·)
  guard (!value.isEmpty)
  let (closing, closed) ← quote? (valued.dropWhile (!isQuote ·))
  let rest ← Text.after? (closed.dropWhile isBlank) [';']
  some ⟨keyword ++ gap ++ [opening], value, closing :: closed.takeWhile isBlank ++ [';'], rest⟩

def charset : Pattern :=
  quoted "@charset".toList true

def imports : Pattern :=
  quoted "@import".toList false

def config : Pattern :=
  quoted "@config".toList false

/-- The value of `@tailwind` is a word without quotes. -/
def tailwind : Pattern :=
  Pattern.word "@tailwind".toList false isWordChar ';'

/-- The directives of a text that a pattern reads, with the comments before them. -/
def records (pattern : Pattern) (text : Text) : List (Record Text) :=
  (pattern.occurrences text).map fun site => (site.map Reading.value).record .strict

end Directive

end Stylesheet
