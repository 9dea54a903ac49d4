import Stylesheet.Block
import Stylesheet.Sheet

/-!
# Keyframes

A `@keyframes` block and the steps in it.
-/

namespace Stylesheet.Keyframes

def isNameChar (c : Char) : Bool :=
  c.isAlphanum || c = '_' || c = '-'

/-- The header of a block: the keyword, the name, and the opening brace. -/
def header : Pattern :=
  Pattern.word "@keyframes".toList true isNameChar '{'

def isStepChar (c : Char) : Bool :=
  c.isAlphanum || c = '%' || c = ',' || isBlank c

/-- A step at the front of a text, and the text after it. It ends at the next closing brace, and its
selector may be blank. -/
def step? (text : Text) : Option (Rule × Text) := do
  let selector := text.takeWhile isStepChar
  guard (!selector.isEmpty)
  let opened ← Text.after? (text.dropWhile isStepChar) ['{']
  let (body, rest) ← Text.cut? '}' opened
  some (⟨Text.trim selector, Declaration.matching body.trim⟩, rest)

def stepMove (text : Text) : Move Rule :=
  match step? text with
  | none => .pass 1
  | some (step, rest) => .take step (text.length - rest.length)

/-- The steps in the interior of a block. -/
def stepsOf (interior : Text) : List Rule :=
  scanContents stepMove interior

def ofBlock (block : Block) : Keyframes :=
  ⟨block.header.value, stepsOf block.interior⟩

/-- The blocks of a text. Any blank may stand between a block and the comments before it. -/
def records (text : Text) : List (Record Keyframes) :=
  (Block.sites header text).map fun site => (site.map ofBlock).record .loose

end Stylesheet.Keyframes
