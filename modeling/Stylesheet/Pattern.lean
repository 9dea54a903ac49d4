import Stylesheet.Scan

/-!
# Patterns

A pattern reads a piece off the front of a text and marks the part of the piece that matters.
-/

namespace Stylesheet

/-- A piece read off a text: `value` is the part that matters, `rest` the text after the piece. -/
structure Reading where
  lead : Text
  value : Text
  tail : Text
  rest : Text
deriving DecidableEq

abbrev Pattern := Text → Option Reading

namespace Reading

/-- The piece that was read. -/
def text (reading : Reading) : Text :=
  reading.lead ++ reading.value ++ reading.tail

end Reading

/-- The byte offsets of a piece and of its value: start and end of each. -/
structure Span where
  start : Nat
  stop : Nat
  valueStart : Nat
  valueStop : Nat
deriving DecidableEq

def Site.span (site : Site Reading) : Span :=
  let start := site.offset
  let valueStart := start + site.content.lead.byteSize
  let valueStop := valueStart + site.content.value.byteSize
  ⟨start, valueStop + site.content.tail.byteSize, valueStart, valueStop⟩

namespace Pattern

/-- A keyword, a word of accepted characters, and a mark. Blanks may stand between them; those after
the keyword may be missing unless `spaced`. -/
def word (keyword : Text) (spaced : Bool) (accepts : Char → Bool) (mark : Char) : Pattern :=
  fun text => do
    let named ← text.after? keyword
    let gap := named.takeWhile isBlank
    guard (!(spaced && gap.isEmpty))
    let worded := named.dropWhile isBlank
    let value := worded.takeWhile accepts
    guard (!value.isEmpty)
    let closed := worded.dropWhile accepts
    let rest ← Text.after? (closed.dropWhile isBlank) [mark]
    some ⟨keyword ++ gap, value, closed.takeWhile isBlank ++ [mark], rest⟩

def move (pattern : Pattern) (text : Text) : Move Reading :=
  match pattern text with
  | none => .pass 1
  | some reading => .take reading reading.text.length

/-- The pieces that a pattern reads in a text: from left to right, each after the end of the one
before. -/
def occurrences (pattern : Pattern) (text : Text) : List (Site Reading) :=
  scan pattern.move text

end Pattern

end Stylesheet
