import Stylesheet.Comment

/-!
# Declarations

The declarations of a block are read in two ways. Splitting cuts the block at semicolons and each
piece at its first colon; matching looks for `property: value;` and so passes over a last
declaration without a semicolon.
-/

namespace Stylesheet

structure Declaration where
  property : Text
  value : Text
deriving DecidableEq

namespace Declaration

/-- A declaration cut at its first colon. -/
def ofPiece? (piece : Text) : Option Declaration :=
  (piece.cut? ':').map fun (property, value) => ⟨property.trim, value.trim⟩

/-- The trimmed pieces between semicolons, without those that are empty. -/
def segments (body : Text) : List Text :=
  ((body.pieces ';').map Text.trim).filter (!·.isEmpty)

/-- The declarations of a block. Comments stay part of the text. -/
def split (body : Text) : List Declaration :=
  (segments body).filterMap ofPiece?

/-- A text without what a pattern reads in it; the first `skip` characters are not kept. -/
def removeFrom (pattern : Pattern) : (skip : Nat) → Text → Text
  | _, [] => []
  | skip + 1, _ :: text => removeFrom pattern skip text
  | 0, c :: text =>
      match pattern (c :: text) with
      | none => c :: removeFrom pattern 0 text
      | some reading => removeFrom pattern (reading.text.length - 1) text

/-- A text without its comments that lie on one line. -/
def stripComments (text : Text) : Text :=
  removeFrom Comment.inlinePattern 0 text

/-- The declarations of a block, each without the comments that lie on one line of its piece. -/
def splitStripped (body : Text) : List Declaration :=
  (segments body).filterMap fun segment =>
    let stripped := (stripComments segment).trim
    if stripped.isEmpty then none else ofPiece? stripped

def isNameChar (c : Char) : Bool :=
  c.isAlpha || c = '-'

/-- A declaration `property: value;` at the front of a text, and the text after it. -/
def read? (text : Text) : Option (Declaration × Text) := do
  let property := text.takeWhile isNameChar
  guard (!property.isEmpty)
  let ahead ← Text.after? ((text.dropWhile isNameChar).dropWhile isBlank) [':']
  let (value, rest) ← Text.cut? ';' ahead
  some (⟨property, value.trim⟩, rest)

def move (text : Text) : Move Declaration :=
  match read? text with
  | none => .pass 1
  | some (declaration, rest) => .take declaration (text.length - rest.length)

/-- The declarations of a block that are written out with a semicolon. -/
def matching (body : Text) : List Declaration :=
  scanContents move body

end Declaration

end Stylesheet
