import Stylesheet.Pattern

/-!
# Blocks

A block is closed by the brace that balances its opening one. Braces in comments do not count, and a
comment without end leaves every block around it open.
-/

namespace Stylesheet

/-- The text before the closing brace that brings `depth` open braces down to none, and the text
after it; `inComment` tells whether the text begins within a comment. -/
def balance : (inComment : Bool) → (depth : Int) → Text → Option (Text × Text)
  | _, _, [] => none
  | true, depth, '*' :: '/' :: text =>
      (balance false depth text).map fun (front, rest) => ('*' :: '/' :: front, rest)
  | true, depth, c :: text =>
      (balance true depth text).map fun (front, rest) => (c :: front, rest)
  | false, depth, '/' :: '*' :: text =>
      (balance true depth text).map fun (front, rest) => ('/' :: '*' :: front, rest)
  | false, depth, '{' :: text =>
      (balance false (depth + 1) text).map fun (front, rest) => ('{' :: front, rest)
  | false, depth, '}' :: text =>
      if depth = 1 then some ([], text)
      else (balance false (depth - 1) text).map fun (front, rest) => ('}' :: front, rest)
  | false, depth, c :: text =>
      (balance false depth text).map fun (front, rest) => (c :: front, rest)

/-- The interior of a block, read after its opening brace, and the text after the block. -/
def interior? (text : Text) : Option (Text × Text) :=
  balance false 1 text

/-- The byte offset of the closing brace that balances the braces from a byte offset on. -/
def closingBrace? (text : Text) (start : Nat) : Option Nat := do
  let (_, ahead) ← text.splitAtByte start
  let (front, _) ← balance false 0 ahead
  some (start + front.byteSize)

/-- A block with the header in front of it. The header's reading ends in the opening brace. -/
structure Block where
  header : Reading
  interior : Text
deriving DecidableEq

namespace Block

/-- The whole of a block, with its header and its closing brace. -/
def text (block : Block) : Text :=
  block.header.text ++ block.interior ++ ['}']

/-- A header whose block stays open ends the scan. -/
def move (header : Pattern) (text : Text) : Move Block :=
  match header text with
  | none => .pass 1
  | some reading =>
      match interior? reading.rest with
      | none => .stop
      | some (interior, _) =>
          let block : Block := ⟨reading, interior⟩
          .take block block.text.length

/-- The blocks of a text, each after the end of the last. -/
def sites (header : Pattern) (text : Text) : List (Site Block) :=
  scan (move header) text

end Block

end Stylesheet
