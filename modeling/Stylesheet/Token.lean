import Stylesheet.Comment

/-!
# Tokens

The tokens of a text are what matters for its blocks: braces, comments, and the text between them.
-/

namespace Stylesheet

inductive Token.Kind where
  | text
  | opening
  | closing
  | slash
  | comment
  | openComment
deriving DecidableEq

structure Token where
  kind : Token.Kind
  lexeme : Text
deriving DecidableEq

namespace Token

/-- A character that ends a run of plain text. -/
def isDelimiter (c : Char) : Bool :=
  c = '{' || c = '}' || c = '/'

/-- The token at the front of a text. A comment that never ends takes the whole text. -/
def first? : Text → Option Token
  | [] => none
  | '{' :: _ => some ⟨.opening, ['{']⟩
  | '}' :: _ => some ⟨.closing, ['}']⟩
  | '/' :: '*' :: text =>
      match Comment.body? text with
      | some (body, _) => some ⟨.comment, '/' :: '*' :: body ++ ['*', '/']⟩
      | none => some ⟨.openComment, '/' :: '*' :: text⟩
  | '/' :: _ => some ⟨.slash, ['/']⟩
  | text => some ⟨.text, text.takeWhile (!isDelimiter ·)⟩

def move (text : Text) : Move Token :=
  match first? text with
  | none => .stop
  | some token => .take token token.lexeme.length

/-- The tokens of a text, each at its place. -/
def sites (text : Text) : List (Site Token) :=
  scan move text

/-- The tokens of a text. -/
def all (text : Text) : List Token :=
  (sites text).map Site.content

end Token

end Stylesheet
