import Mathlib.Data.List.Infix
import Mathlib.Tactic.MkIffOfInductiveProp
import Stylesheet.Keyframes
import Stylesheet.Media
import Stylesheet.Directive
import Stylesheet.Proofs.NestedRules
import Stylesheet.Proofs.Trimming

/-!
# Canonical documents

The documents whose text says all that they say except for the lines: no part of such a document is
written in a way that could be read as something else, and no part is lost in reading.

What may be nested in a media block is bounded by how it is read back. The whole text is read for
each kind, and inside of blocks as well; the blocks and directives of a nested document would be
found twice. Its style rules would be read as rules of the block around it, and comments before its
media block would be lost. So a nested document is one media block and nothing else, and its query
has only the characters that the header of a nested block can have.
-/

namespace Stylesheet

open Text (Trimmed)

/-- A text that cannot end the element it stands in, and begins no other one. -/
@[mk_iff]
structure Plain (text : Text) : Prop where
  at_sign : '@' ∉ text
  opening : '{' ∉ text
  closing : '}' ∉ text
  semicolon : ';' ∉ text
  comment : ¬['/', '*'] <:+: text

instance : DecidablePred Plain := fun text =>
  decidable_of_iff' _ (plain_iff text)

theorem Plain.of_isInfix {part text : Text} (h : Plain text) (hpart : part <:+: text) :
    Plain part where
  at_sign hmem := h.at_sign (hpart.subset hmem)
  opening hmem := h.opening (hpart.subset hmem)
  closing hmem := h.closing (hpart.subset hmem)
  semicolon hmem := h.semicolon (hpart.subset hmem)
  comment hpair := h.comment (hpair.trans hpart)

/-- A comment's body that is read as it is written. -/
@[mk_iff]
structure Comment.Canonical (body : Text) : Prop where
  normalized : Comment.normalize body = body
  at_sign : '@' ∉ body
  opener : ¬['/', '*'] <:+: body
  closer : ¬['*', '/'] <:+: body

instance : DecidablePred Comment.Canonical := fun body =>
  decidable_of_iff' _ (Comment.canonical_iff body)

@[mk_iff]
structure Declaration.Canonical (declaration : Declaration) : Prop where
  property_trimmed : Trimmed declaration.property
  value_trimmed : Trimmed declaration.value
  property_plain : Plain declaration.property
  value_plain : Plain declaration.value
  colon : ':' ∉ declaration.property

instance : DecidablePred Declaration.Canonical := fun declaration =>
  decidable_of_iff' _ (Declaration.canonical_iff declaration)

namespace Rule

/-- A style rule, at the top of a document or in a media block. -/
@[mk_iff]
structure Canonical (rule : Rule) : Prop where
  selector_ne_nil : rule.selector ≠ []
  selector_trimmed : Trimmed rule.selector
  selector_plain : Plain rule.selector
  declarations : ∀ declaration ∈ rule.declarations, declaration.Canonical

instance : DecidablePred Rule.Canonical := fun rule =>
  decidable_of_iff' _ (canonical_iff rule)

/-- A keyframe step, whose selector may be empty. -/
@[mk_iff]
structure CanonicalStep (step : Rule) : Prop where
  selector_trimmed : Trimmed step.selector
  selector : step.selector.all Keyframes.isStepChar
  declarations : ∀ declaration ∈ step.declarations, declaration.Canonical ∧
    declaration.property ≠ [] ∧ declaration.property.all Declaration.isNameChar

instance : DecidablePred CanonicalStep := fun step =>
  decidable_of_iff' _ (canonicalStep_iff step)

end Rule

@[mk_iff]
structure Keyframes.Canonical (keyframes : Keyframes) : Prop where
  name_ne_nil : keyframes.name ≠ []
  name : keyframes.name.all Keyframes.isNameChar
  steps : ∀ step ∈ keyframes.steps, step.CanonicalStep

instance : DecidablePred Keyframes.Canonical := fun keyframes =>
  decidable_of_iff' _ (Keyframes.canonical_iff keyframes)

namespace Directive

/-- A value that stands between quotes. -/
@[mk_iff]
structure CanonicalQuoted (value : Text) : Prop where
  ne_nil : value ≠ []
  at_sign : '@' ∉ value
  opening : '{' ∉ value
  semicolon : ';' ∉ value
  quote : value.all (!isQuote ·)

instance : DecidablePred CanonicalQuoted := fun value =>
  decidable_of_iff' _ (canonicalQuoted_iff value)

@[mk_iff]
structure CanonicalWord (value : Text) : Prop where
  ne_nil : value ≠ []
  word : value.all isWordChar

instance : DecidablePred CanonicalWord := fun value =>
  decidable_of_iff' _ (canonicalWord_iff value)

end Directive

/-- A rule of a media block whose nested at-rule is canonical if `nested` holds for it. -/
def MediaRule.Canonical {δ : Type} (nested : δ → Prop) : MediaRule δ → Prop
  | .style rule => rule.Canonical
  | .atRule document => nested document

structure MediaBlock.Canonical {δ : Type} (nested : δ → Prop) (block : MediaBlock δ) : Prop where
  query_ne_nil : block.query ≠ []
  query_trimmed : Trimmed block.query
  query_plain : Plain block.query
  rules : ∀ rule ∈ block.rules, rule.Canonical nested

namespace Record

variable {α : Type}

@[mk_iff]
structure Canonical (content : α → Prop) (record : Record α) : Prop where
  comment_ne_nil : record.comment ≠ some []
  comment : ∀ entries ∈ record.comment, ∀ entry ∈ entries, Comment.Canonical entry
  content : content record.content

instance (content : α → Prop) [DecidablePred content] : DecidablePred (Canonical content) :=
  fun record => decidable_of_iff' _ (canonical_iff content record)

@[mk_iff]
structure CanonicalKind (content : α → Prop) (records : Option (List (Record α))) : Prop where
  ne_nil : records ≠ some []
  record : ∀ list ∈ records, ∀ record ∈ list, record.Canonical content

instance [DecidableEq α] (content : α → Prop) [DecidablePred content] :
    DecidablePred (CanonicalKind content) := fun records =>
  decidable_of_iff' _ (canonicalKind_iff content records)

/-- A record that leaves open where it stands. -/
def unlined (record : Record α) : Record α :=
  { record with line := 0 }

end Record

namespace Sheet

variable {δ : Type}

structure Canonical (nested : δ → Prop) (sheet : Sheet δ) : Prop where
  charset : Record.CanonicalKind Directive.CanonicalQuoted sheet.charset
  imports : Record.CanonicalKind Directive.CanonicalQuoted sheet.imports
  tailwind : Record.CanonicalKind Directive.CanonicalWord sheet.tailwind
  config : ∀ record ∈ sheet.config, record.Canonical Directive.CanonicalQuoted
  keyframes : Record.CanonicalKind Keyframes.Canonical sheet.keyframes
  media : Record.CanonicalKind (MediaBlock.Canonical nested) sheet.media
  styles : Record.CanonicalKind Rule.Canonical sheet.styles

def unlined (sheet : Sheet δ) : Sheet δ where
  charset := sheet.charset.map (List.map Record.unlined)
  imports := sheet.imports.map (List.map Record.unlined)
  tailwind := sheet.tailwind.map (List.map Record.unlined)
  config := sheet.config.map Record.unlined
  keyframes := sheet.keyframes.map (List.map Record.unlined)
  media := sheet.media.map (List.map Record.unlined)
  styles := sheet.styles.map (List.map Record.unlined)

end Sheet

namespace Document

/-- A document nested in a media block: one media block without comments. -/
inductive CanonicalNested : Document → Prop
  | wrap (line : Nat) (block : MediaBlock Document) (query_ne_nil : block.query ≠ [])
      (query_trimmed : Trimmed block.query)
      (query : block.query.all MediaBlock.isHeaderChar)
      (style : ∀ rule, .style rule ∈ block.rules → rule.Canonical)
      (atRule : ∀ nested, .atRule nested ∈ block.rules → CanonicalNested nested) :
      CanonicalNested ⟨{ media := some [⟨none, line, block⟩] }⟩

def Canonical (document : Document) : Prop :=
  document.sheet.Canonical CanonicalNested

/-- A document that leaves open on which lines its records stand. -/
def unlined : Document → Document :=
  fold fun sheet => ⟨sheet.unlined⟩

end Document

end Stylesheet
