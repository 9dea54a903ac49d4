import Stylesheet.Document
import Stylesheet.Directive
import Stylesheet.Keyframes
import Stylesheet.Media
import Stylesheet.StyleRule

/-!
# Parsing

Each kind is read from the whole text on its own, and the seven sheets are merged. Parsing never
fails: what cannot be read is left out.
-/

namespace Stylesheet

namespace Kind

/-- The pattern that begins an element of the kind; style rules have none. -/
def pattern? : Kind → Option Pattern
  | .charset => some Directive.charset
  | .imports => some Directive.imports
  | .tailwind => some Directive.tailwind
  | .config => some Directive.config
  | .keyframes => some Keyframes.header
  | .media => some MediaBlock.header
  | .styles => none

/-- The places of a text at which the kind's pattern reads, inside of blocks as well. -/
def spans? (kind : Kind) (text : Text) : Option (List Span) :=
  kind.pattern?.map fun pattern => (pattern.occurrences text).map Site.span

/-- The sheet with the records of one kind. Of the config records the first counts. -/
def read (kind : Kind) (text : Text) : Sheet Text :=
  match kind with
  | .charset => { charset := present (Directive.records Directive.charset text) }
  | .imports => { imports := present (Directive.records Directive.imports text) }
  | .tailwind => { tailwind := present (Directive.records Directive.tailwind text) }
  | .config => { config := (Directive.records Directive.config text).head? }
  | .keyframes => { keyframes := present (Keyframes.records text) }
  | .media => { media := present (MediaBlock.records text) }
  | .styles => { styles := present (StyleRule.records text) }

end Kind

/-- The sheet of the given kinds, merged in their order; nested at-rules stay text. -/
def Sheet.readKinds (kinds : List Kind) (text : Text) : Sheet Text :=
  kinds.foldl (fun sheet kind => sheet.merge (kind.read text)) {}

namespace Document

/-- The document of the given kinds. Nested at-rules are read whole, at most `levels` deep; deeper
ones are dropped. -/
def readKinds (kinds : List Kind) : (levels : Nat) → Text → Document
  | 0, text => ⟨(Sheet.readKinds kinds text).expand fun _ => none⟩
  | levels + 1, text =>
      ⟨(Sheet.readKinds kinds text).expand fun nested => some (readKinds Kind.all levels nested)⟩

/-- How many levels of at-rules are read in a text found at a depth. A nested at-rule is shorter
than the text around it, so without a cap as many levels as the text has characters are enough. -/
def levelsBelow (cap : Option Nat) (depth : Nat) (text : Text) : Nat :=
  match cap with
  | none => text.length
  | some most => most - depth

/-- The document of a text. A cap bounds the depth at which nested at-rules are kept. -/
def parse (cap : Option Nat) (text : Text) : Document :=
  readKinds Kind.all (levelsBelow cap 0 text) text

/-- The document with the records of one kind, for a text found at a depth. -/
def parseKind (kind : Kind) (cap : Option Nat) (depth : Nat) (text : Text) : Document :=
  readKinds [kind] (levelsBelow cap depth text) text

end Document

end Stylesheet
