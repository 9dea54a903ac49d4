import Stylesheet.Json.SourceTree

/-!
# Decoders

A decoder turns a tree into a value and may open a number of brackets on the way. It reads the tree
from left to right, so the first fault that it comes upon is the first in the text.

A record is an object, or an array of its fields in their order. Keys that no field has are passed
over, and so are their values, which are read laxly.
-/

namespace Stylesheet.Json

/-- A reading of trees that may open `levels` more brackets. -/
abbrev Decoder (α : Type) := (levels : Nat) → SourceTree → Except Fault α

/-- Raises a fault if there is one. -/
def raise? : Option Fault → Except Fault Unit
  | none => .ok ()
  | some fault => .error fault

namespace Decoder

variable {α β : Type}

/-- The fault of a value of another shape than expected. Scalars are read before they are blamed. -/
def mismatch (expected : Expected) : SourceTree → Except Fault α
  | .null => .error (.invalidType .null expected)
  | .bool value => .error (.invalidType (.bool value) expected)
  | .number value => do .error (.invalidType (.number (← value.value)) expected)
  | .string value => do .error (.invalidType (.string (← value.value)) expected)
  | .array _ _ => .error (.invalidType .sequence expected)
  | .object _ _ => .error (.invalidType .map expected)
  | .bad fault => .error fault

def text : Decoder Text
  | _, .string value => value.value
  | _, tree => mismatch .text tree

/-- A number without sign, point and exponent that fits into 64 bits. -/
def count : Decoder Nat
  | _, .number value => do
      match ← value.value with
      | .integer value => if value < 0 then .error (.negativeCount value) else .ok value.toNat
      | .float negative magnitude =>
          .error (.invalidType (.number (.float negative magnitude)) .count)
  | _, tree => mismatch .count tree

def flag : Decoder Bool
  | _, .bool value => .ok value
  | _, tree => mismatch .flag tree

/-- A value, or null. -/
def orNull (decode : Decoder α) : Decoder (Option α)
  | _, .null => .ok none
  | levels, tree => (decode levels tree).map some

def list (decode : Decoder α) : Decoder (List α)
  | 0, .array _ _ => .error .recursionLimit
  | levels + 1, .array items ending => do
      let values ← items.mapM (decode levels)
      raise? ending.listFault?
      .ok values
  | _, tree => mismatch .sequence tree

end Decoder

/-- A field of a record that is being read into a draft of type `σ`. -/
structure FieldReader (σ : Type) where
  key : Text
  read : (levels : Nat) → SourceTree → σ → Except Fault σ

/-- A field of a larger draft. -/
def FieldReader.within {σ τ : Type} (get : τ → σ) (set : σ → τ → τ) (field : FieldReader σ) :
    FieldReader τ :=
  ⟨field.key, fun levels tree draft =>
    (field.read levels tree (get draft)).map (set · draft)⟩

/-- How a record is read: its fields in order, the draft before any field is read, and the value of
a draft once all are. A `lenient` record may be written as a shorter array. -/
structure Schema (σ α : Type) where
  fields : List (FieldReader σ)
  start : σ
  finish : σ → Except Fault α
  lenient : Bool := false

namespace Schema

variable {σ τ α β : Type}

/-- Reads the members of an object into a draft; `seen` holds the keys read before. -/
def readMembers (fields : List (FieldReader σ)) (levels : Nat) :
    (seen : List Text) → σ → List (Scanned Text × SourceTree) → Except Fault σ
  | _, draft, [] => .ok draft
  | seen, draft, (key, tree) :: members => do
      let key ← key.value
      match fields.find? (·.key = key) with
      | none =>
          raise? tree.laxFault?
          readMembers fields levels seen draft members
      | some field =>
          if key ∈ seen then .error (.duplicateField key)
          else readMembers fields levels (key :: seen) (← field.read levels tree draft) members

/-- The fault of an array that goes on after the last field of a record. -/
def surplusFault? : Ending → Option Fault
  | .closed | .stopped => none
  | .cut => some .endOfList
  | .hangingComma => some .trailingComma
  | .junk | .cutAfterComma | .noItem => some .trailingCharacters

/-- Reads the items of an array into a draft; `missing` is the fault of an array that is closed too
early. -/
def readItems (levels : Nat) (missing : Option Fault) (ending : Ending) :
    List (FieldReader σ) → σ → List SourceTree → Except Fault σ
  | [], draft, [] => do
      raise? (surplusFault? ending)
      .ok draft
  | [], _, _ :: _ => .error .trailingCharacters
  | _ :: _, draft, [] => do
      raise? (ending.listFault?.or missing)
      .ok draft
  | field :: fields, draft, item :: items => do
      readItems levels missing ending fields (← field.read levels item draft) items

/-- The decoder of a record. -/
def decode (schema : Schema σ α) (name : Text) : Decoder α
  | 0, .object _ _ | 0, .array _ _ => .error .recursionLimit
  | levels + 1, .object members ending => do
      let draft ← readMembers schema.fields levels [] schema.start members
      raise? ending.objectFault?
      schema.finish draft
  | levels + 1, .array items ending => do
      let missing :=
        if schema.lenient then none
        else some (.invalidLength items.length name schema.fields.length)
      schema.finish (← readItems levels missing ending schema.fields schema.start items)
  | _, tree => Decoder.mismatch (.record name) tree

/-- The value of a field that has to be there. -/
def require (key : Text) : Option α → Except Fault α
  | none => .error (.missingField key)
  | some value => .ok value

/-- A field that is kept in the draft as it is. -/
def field (key : Text) (decode : Decoder α) (set : α → σ → σ) : FieldReader σ :=
  ⟨key, fun levels tree draft => (decode levels tree).map (set · draft)⟩

/-- A record of one required field. -/
def one (key : Text) (decode : Decoder α) : Schema (Option α) α where
  fields := [field key decode fun value _ => some value]
  start := none
  finish := require key

/-- The fields of two records in one. -/
def both (first : Schema σ α) (second : Schema τ β) : Schema (σ × τ) (α × β) where
  fields :=
    first.fields.map (FieldReader.within Prod.fst fun part draft => (part, draft.2)) ++
      second.fields.map (FieldReader.within Prod.snd fun part draft => (draft.1, part))
  start := (first.start, second.start)
  finish draft := do
    let part ← first.finish draft.1
    .ok (part, ← second.finish draft.2)

/-- A record of one field that is null when it is missing. -/
def oneOrNull (key : Text) (decode : Decoder α) : Schema (Option α) (Option α) where
  fields := [field key (Decoder.orNull decode) fun value _ => value]
  start := none
  finish := .ok

def map (f : α → β) (schema : Schema σ α) : Schema σ β :=
  { schema with finish := fun draft => (schema.finish draft).map f }

end Schema

/-- The value of a text with nothing but gaps around it. At most 127 brackets may be open at
once. -/
def Decoder.run {α : Type} (decode : Decoder α) (text : Text) : Except Fault α := do
  let (tree, rest) := SourceTree.read text
  let value ← decode 127 tree
  if rest.all (·.all SourceTree.isGap) then .ok value else .error .trailingCharacters

end Stylesheet.Json
