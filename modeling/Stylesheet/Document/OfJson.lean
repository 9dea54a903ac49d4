import Stylesheet.Document
import Stylesheet.Json.Decoder

/-!
# Documents from JSON

The decoders of documents and their parts. A kind of a document may be missing or null; of a record
only the comments may.
-/

namespace Stylesheet

open Json (Schema Decoder FieldReader Fault SourceTree)

namespace Declaration

def schema : Schema (Option Text × Option Text) Declaration :=
  (Schema.both (.one "property".toList Decoder.text) (.one "value".toList Decoder.text)).map
    fun (property, value) => ⟨property, value⟩

def decode : Decoder Declaration :=
  schema.decode "Declaration".toList

end Declaration

namespace Rule

/-- A rule whose fields have the given names. -/
def schema (selectorKey declarationsKey : Text) :
    Schema (Option Text × Option (List Declaration)) Rule :=
  (Schema.both (.one selectorKey Decoder.text)
    (.one declarationsKey (Decoder.list Declaration.decode))).map
    fun (selector, declarations) => ⟨selector, declarations⟩

def styleSchema : Schema (Option Text × Option (List Declaration)) Rule :=
  schema "selector".toList "declarations".toList

def decode : Decoder Rule :=
  styleSchema.decode "RuleBlock".toList

def decodeStep : Decoder Rule :=
  (schema "step".toList "rules".toList).decode "KeyframeStep".toList

end Rule

namespace Keyframes

def schema : Schema (Option Text × Option (List Rule)) Keyframes :=
  (Schema.both (.one "name".toList Decoder.text)
    (.one "steps".toList (Decoder.list Rule.decodeStep))).map
    fun (name, steps) => ⟨name, steps⟩

end Keyframes

namespace Record

variable {σ α : Type}

def commentSchema : Schema (Option (List Text)) (Option (List Text)) :=
  .oneOrNull "comment".toList (Decoder.list Decoder.text)

/-- A record with the fields of its content last. -/
def schema (content : Schema σ α) :
    Schema (Option (List Text) × Option Nat × σ) (Record α) :=
  (Schema.both commentSchema (.both (.one "line".toList Decoder.count) content)).map
    fun (comment, line, content) => ⟨comment, line, content⟩

/-- The decoder of a record; `name` is what its faults call it. -/
def decode (name : Text) (content : Schema σ α) : Decoder (Record α) :=
  (schema content).decode name

end Record

def Directive.decode : Decoder (Record Text) :=
  Record.decode "Directive".toList (.one "value".toList Decoder.text)

namespace MediaRule

variable {δ : Type}

/-- A nested at-rule: an object, and never an array. -/
def decodeNested (nested : SourceTree → Except Fault δ) : Decoder δ
  | _, .array _ _ => .error .noVariant
  | levels, tree =>
      (Schema.one "at_rule".toList fun _ => nested).decode [] levels tree

/-- A rule of a media block. It is read strictly as a whole before its shape is looked at; what is
neither a rule nor a nested at-rule has no better fault than that. -/
def decode (nested : SourceTree → Except Fault δ) : Decoder (MediaRule δ) := fun levels tree => do
  Json.raise? (tree.fault? levels)
  match Rule.decode levels tree, decodeNested nested levels tree with
  | .ok rule, _ => .ok (.style rule)
  | .error _, .ok document => .ok (.atRule document)
  | .error _, .error _ => .error .noVariant

end MediaRule

namespace MediaBlock

variable {δ : Type}

def schema (nested : SourceTree → Except Fault δ) :
    Schema (Option Text × Option (List (MediaRule δ))) (MediaBlock δ) :=
  (Schema.both (.one "media_query".toList Decoder.text)
    (.one "rules".toList (Decoder.list (MediaRule.decode nested)))).map
    fun (query, rules) => ⟨query, rules⟩

end MediaBlock

namespace Sheet

variable {δ : Type}

/-- A field that may be null or missing. -/
def kindField {α : Type} (key : Text) (decode : Decoder α)
    (set : Option α → Sheet δ → Sheet δ) : FieldReader (Sheet δ) :=
  Schema.field key (Decoder.orNull decode) set

def schema (nested : SourceTree → Except Fault δ) : Schema (Sheet δ) (Sheet δ) where
  fields := [
    kindField "charset".toList (Decoder.list Directive.decode)
      fun records sheet => { sheet with charset := records },
    kindField "imports".toList (Decoder.list Directive.decode)
      fun records sheet => { sheet with imports := records },
    kindField "tailwind".toList (Decoder.list Directive.decode)
      fun records sheet => { sheet with tailwind := records },
    kindField "config".toList Directive.decode
      fun record sheet => { sheet with config := record },
    kindField "keyframes".toList (Decoder.list (Record.decode "Keyframes".toList Keyframes.schema))
      fun records sheet => { sheet with keyframes := records },
    kindField "media".toList
      (Decoder.list (Record.decode "MediaBlock".toList (MediaBlock.schema nested)))
      fun records sheet => { sheet with media := records },
    kindField "styles".toList (Decoder.list (Record.decode "StyleRule".toList Rule.styleSchema))
      fun records sheet => { sheet with styles := records }]
  start := {}
  finish := .ok
  lenient := true

/-- The decoder of a sheet, with a decoder for its nested at-rules. -/
def decode (nested : SourceTree → Except Fault δ) : Decoder (Sheet δ) :=
  (schema nested).decode "Document".toList

end Sheet

namespace Document

/-- The decoder of a document. The document of a nested at-rule stands in five brackets: those of
the document around it, of its media blocks, of one of them, of its rules, and of one of these. -/
def decode : Decoder Document
  | levels + 5, tree => (Sheet.decode (decode levels) (levels + 5) tree).map .mk
  | levels, tree => (Sheet.decode (fun _ => .error .recursionLimit) levels tree).map .mk

/-- The document of a JSON text. -/
def ofJson? (text : Text) : Except Fault Document :=
  decode.run text

end Document

end Stylesheet
