import Stylesheet.Block
import Stylesheet.Sheet

/-!
# Media blocks

A `@media` block and the rules in it. A nested at-rule is kept as its own text.
-/

namespace Stylesheet.MediaBlock

/-- The header of a block: the keyword, the query up to the first brace, and that brace. A query of
blanks takes the last of them. -/
def header : Pattern := fun text => do
  let keyword := "@media".toList
  let spaced ← text.after? keyword
  let gap := spaced.takeWhile isBlank
  let queried := spaced.dropWhile isBlank
  let query := queried.takeWhile (· ≠ '{')
  let rest ← Text.after? (queried.dropWhile (· ≠ '{')) ['{']
  guard (!gap.isEmpty)
  if query.isEmpty then
    guard (1 < gap.length)
    some ⟨keyword ++ gap.dropLast, gap.drop (gap.length - 1), ['{'], rest⟩
  else
    some ⟨keyword ++ gap, query, ['{'], rest⟩

/-- A character of the header of a nested at-rule. -/
def isHeaderChar (c : Char) : Bool :=
  isWordChar c || isBlank c || c = '(' || c = ')' || c = '-'

/-- A run of characters up to an opening brace. -/
def runUpToBrace (accepts : Char → Bool) (text : Text) : Option (Text × Text) := do
  let run := text.takeWhile accepts
  guard (!run.isEmpty)
  let rest ← Text.after? (text.dropWhile accepts) ['{']
  some (run, rest)

/-- The header of a block inside a media block: a selector, or a nested at-rule's header. -/
def innerHeader : Pattern
  | '@' :: text =>
      (runUpToBrace isHeaderChar text).map fun (run, rest) => ⟨[], '@' :: run, ['{'], rest⟩
  | text =>
      (runUpToBrace (fun c => c ≠ '{' && c ≠ '@') text).map fun (run, rest) =>
        ⟨[], run, ['{'], rest⟩

/-- A block inside a media block as a rule, unless it has nothing before its brace. -/
def ruleOf? (block : Block) : Option (MediaRule Text) :=
  match block.header.value.trim with
  | [] => none
  | '@' :: _ => some (.atRule block.text)
  | selector => some (.style ⟨selector, Declaration.split block.interior⟩)

/-- The rules in the interior of a block, each nested at-rule as its text. -/
def rulesOf (interior : Text) : List (MediaRule Text) :=
  (scanContents (Block.move innerHeader) interior).filterMap ruleOf?

def ofBlock (block : Block) : MediaBlock Text :=
  ⟨block.header.value.trim, rulesOf block.interior⟩

/-- The media blocks of a text, with the comments before them. -/
def records (text : Text) : List (Record (MediaBlock Text)) :=
  (Block.sites header text).map fun site => (site.map ofBlock).record .strict

end Stylesheet.MediaBlock
