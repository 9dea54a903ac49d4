import Stylesheet.Document

/-!
# Rendering

A document is written kind by kind, in the order in which the kinds are read, each followed by a
line feed.
-/

namespace Stylesheet

/-- The comments before an element, each on a line of its own. -/
def renderComments : Option (List Text) → Text
  | none => []
  | some [] => []
  | some entries => Text.unlines (entries.map Comment.block) ++ ['\n']

namespace Declaration

def render (indent : Nat) (declaration : Declaration) : Text :=
  List.replicate indent '\t' ++ declaration.property ++ ": ".toList ++ declaration.value ++
    ";\n".toList

def renderAll (indent : Nat) (declarations : List Declaration) : Text :=
  declarations.flatMap (render indent)

end Declaration

namespace Rule

/-- A rule inside a block. -/
def renderInner (rule : Rule) : Text :=
  '\t' :: rule.selector ++ " \x7b\n".toList ++ Declaration.renderAll 2 rule.declarations ++
    "  \x7d\n".toList

/-- A rule outside of every block. -/
def render (rule : Rule) : Text :=
  rule.selector ++ " \x7b\n".toList ++ Declaration.renderAll 1 rule.declarations ++
    "\x7d\n\n".toList

end Rule

/-- The text of a block at-rule, between its keyword and the end of its line. -/
def renderBlock (keyword name interior : Text) : Text :=
  keyword ++ [' '] ++ name ++ " \x7b\n".toList ++ interior ++ "\n\x7d\n".toList

namespace Keyframes

def render (keyframes : Keyframes) : Text :=
  renderBlock "@keyframes".toList keyframes.name (keyframes.steps.flatMap Rule.renderInner)

end Keyframes

/-- A rule of a media block. A nested at-rule is given by its rendered document. -/
def MediaRule.render : MediaRule Text → Text
  | .style rule => rule.renderInner
  | .atRule nested => nested ++ ['\n']

def MediaBlock.render (block : MediaBlock Text) : Text :=
  renderBlock "@media".toList block.query (block.rules.flatMap MediaRule.render)

namespace Directive

/-- A directive with its value in quotes. -/
def renderQuoted (keyword : Text) (mark : Char) (value : Text) : Text :=
  keyword ++ [' ', mark] ++ value ++ [mark, ';']

def renderCharset (value : Text) : Text :=
  renderQuoted "@charset".toList '"' value ++ ['\n']

def renderImport : Text → Text :=
  renderQuoted "@import".toList '\''

def renderConfig : Text → Text :=
  renderQuoted "@config".toList '\''

def renderTailwind (value : Text) : Text :=
  "@tailwind ".toList ++ value ++ [';']

end Directive

/-- An element after its comments. -/
def Record.render {α : Type} (write : α → Text) (record : Record α) : Text :=
  renderComments record.comment ++ write record.content

namespace Sheet

/-- The records of one kind. Imports and layers are parted by line feeds, the others end their lines
themselves. -/
def renderKind (sheet : Sheet Text) : Kind → Text
  | .charset => (sheet.charset.getD []).flatMap (Record.render Directive.renderCharset)
  | .imports => .unlines ((sheet.imports.getD []).map (Record.render Directive.renderImport))
  | .tailwind => .unlines ((sheet.tailwind.getD []).map (Record.render Directive.renderTailwind))
  | .config => sheet.config.elim [] (Record.render Directive.renderConfig)
  | .keyframes => (sheet.keyframes.getD []).flatMap (Record.render Keyframes.render)
  | .media => (sheet.media.getD []).flatMap (Record.render MediaBlock.render)
  | .styles => (sheet.styles.getD []).flatMap (Record.render Rule.render)

/-- A sheet whose nested at-rules are rendered already. -/
def render (sheet : Sheet Text) : Text :=
  Kind.all.flatMap fun kind => sheet.renderKind kind ++ ['\n']

end Sheet

namespace Document

/-- The text of a document. -/
def render : Document → Text :=
  fold Sheet.render

/-- The text of one kind of a document's records. -/
def renderKind (document : Document) (kind : Kind) : Text :=
  (document.sheet.map render).renderKind kind

end Document

end Stylesheet
