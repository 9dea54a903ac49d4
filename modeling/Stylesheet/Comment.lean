import Stylesheet.Pattern

/-!
# Comments

Comments are found in two ways: the inventory reads all of them from left to right, and the comments
attached to an element are read backwards from the place where the element begins.
-/

namespace Stylesheet

/-- A comment of a text: the line on which it begins and its trimmed body. -/
structure Comment where
  line : Nat
  value : Text
deriving DecidableEq

namespace Comment

/-- The body of a comment, read after its opener, and the text after its closer. -/
def body? : Text → Option (Text × Text)
  | [] => none
  | '*' :: '/' :: text => some ([], text)
  | c :: text => (body? text).map fun (body, rest) => (c :: body, rest)

/-- A whole comment. -/
def pattern : Pattern
  | '/' :: '*' :: text => (body? text).map fun (body, rest) => ⟨['/', '*'], body, ['*', '/'], rest⟩
  | _ => none

/-- A whole comment that lies on one line. -/
def inlinePattern (text : Text) : Option Reading :=
  (pattern text).filter fun reading => !reading.value.contains '\n'

/-- Every comment of a text that has an end. -/
def inventory (text : Text) : List Comment :=
  (pattern.occurrences text).map fun site => ⟨site.line, site.content.value.trim⟩

/-- One comment of the form that the renderer writes. -/
def block (body : Text) : Text :=
  "/* ".toList ++ body ++ " */".toList

/-- Comments, one after the other, with a line feed between neighbours. -/
def listing (comments : List Comment) : Text :=
  .unlines (comments.map fun comment => block comment.value)

/-- A comment's body with each of its lines trimmed. -/
def normalize (body : Text) : Text :=
  (Text.unlines (body.lines.map Text.trim)).trim

end Comment

/-- How near a comment has to be to what follows it: under `strict` a form feed parts them. -/
inductive Adjacency where
  | strict
  | loose
deriving DecidableEq

namespace Adjacency

/-- Whether a character may stand between a comment and what follows it. -/
def allows : Adjacency → Char → Bool
  | .strict, c => isBlank c && c ≠ '\x0c'
  | .loose, c => isBlank c

/-- The comments that end a text, nearest first. The text is read backwards, and `inside` holds
what was read of a comment whose opener is still to come. -/
def readBack (adjacency : Adjacency) : (inside : Option Text) → (before : Text) → List Text
  | none, '/' :: '*' :: before => readBack adjacency (some []) before
  | none, c :: before => if adjacency.allows c then readBack adjacency none before else []
  | some body, '*' :: '/' :: before => Comment.normalize body :: readBack adjacency none before
  | some body, c :: before => readBack adjacency (some (c :: body)) before
  | _, [] => []

/-- The comments attached to a place, in the order of the text; `none` when there are none. -/
def attached (adjacency : Adjacency) (before : Text) : Option (List Text) :=
  match readBack adjacency none before with
  | [] => none
  | nearest :: others => some (nearest :: others).reverse

end Adjacency

/-- The comments attached to a byte offset, which past the end of the text means its end. -/
def attachedComments (text : Text) (offset : Nat) (adjacency : Adjacency) : Option (List Text) :=
  match text.splitAtByte (min offset text.byteSize) with
  | none => none
  | some (front, _) => adjacency.attached front.reverse

end Stylesheet
