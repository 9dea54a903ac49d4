import Stylesheet.Block
import Stylesheet.Sheet

/-!
# Style rules

The rules that stand outside of every at-rule. Comments and at-rules are passed over whole; one that
does not end, and a block that stays open, end the scan.
-/

namespace Stylesheet

/-- The at-rule at the front of a text, and the text after it. It ends with its first semicolon, or
with its block if a brace opens one before that. -/
def atRule? (text : Text) : Option (Text × Text) :=
  let front := text.takeWhile fun c => c ≠ ';' && c ≠ '{'
  match text.dropWhile fun c => c ≠ ';' && c ≠ '{' with
  | ';' :: rest => some (front ++ [';'], rest)
  | '{' :: opened => (interior? opened).map fun (interior, rest) =>
      (front ++ '{' :: interior ++ ['}'], rest)
  | _ => none

namespace StyleRule

/-- Passes over a piece of text; without one the scan ends. -/
def passOver (piece : Option (Text × Text)) : Move Rule :=
  match piece with
  | none => .stop
  | some (front, _) => .pass front.length

/-- Reads a rule. A brace with nothing but white space before it is passed over alone. -/
def readRule (text : Text) : Move Rule :=
  match text.cut? '{' with
  | none => .stop
  | some (front, opened) =>
      if front.trim.isEmpty then .pass (front.length + 1)
      else match interior? opened with
        | none => .stop
        | some (interior, _) =>
            .take ⟨front.trim, Declaration.splitStripped interior⟩
              (front.length + interior.length + 2)

def move (text : Text) : Move Rule :=
  match text with
  | '/' :: '*' :: _ =>
      passOver ((Comment.pattern text).map fun reading => (reading.text, reading.rest))
  | '@' :: _ => passOver (atRule? text)
  | c :: _ => if isBlank c then .pass 1 else readRule text
  | [] => .stop

/-- The style rules of a text, with the comments before them. -/
def records (text : Text) : List (Record Rule) :=
  (scan move text).map (Site.record .strict)

end StyleRule

end Stylesheet
