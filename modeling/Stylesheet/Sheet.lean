import Stylesheet.Comment
import Stylesheet.Declaration

/-!
# Sheets

A sheet holds what one text consists of, kind by kind. An at-rule nested in a media block has a text
of its own; the type `δ` says in what form a sheet keeps it.
-/

namespace Stylesheet

/-- The kinds of elements, in the order in which they are read and written. -/
inductive Kind where
  | charset
  | imports
  | tailwind
  | config
  | keyframes
  | media
  | styles
deriving DecidableEq

def Kind.all : List Kind :=
  [.charset, .imports, .tailwind, .config, .keyframes, .media, .styles]

/-- An element, the line on which it begins, and the comments attached to it. -/
structure Record (α : Type) where
  comment : Option (List Text)
  line : Nat
  content : α
deriving DecidableEq

/-- A selector and the declarations in its braces. -/
structure Rule where
  selector : Text
  declarations : List Declaration
deriving DecidableEq

structure Keyframes where
  name : Text
  steps : List Rule
deriving DecidableEq

inductive MediaRule (δ : Type) where
  | style (rule : Rule)
  | atRule (nested : δ)
deriving DecidableEq

structure MediaBlock (δ : Type) where
  query : Text
  rules : List (MediaRule δ)
deriving DecidableEq

/-- The records of a text. A kind may be absent, which is not the same as a kind without records. -/
structure Sheet (δ : Type) where
  charset : Option (List (Record Text)) := none
  imports : Option (List (Record Text)) := none
  tailwind : Option (List (Record Text)) := none
  config : Option (Record Text) := none
  keyframes : Option (List (Record Keyframes)) := none
  media : Option (List (Record (MediaBlock δ))) := none
  styles : Option (List (Record Rule)) := none
deriving DecidableEq

namespace Site

variable {α : Type}

/-- A find as a record. -/
def record (adjacency : Adjacency) (site : Site α) : Record α :=
  ⟨adjacency.attached site.before, site.line, site.content⟩

end Site

/-- Records as a kind of a sheet, absent when there are none. -/
def present {α : Type} : List α → Option (List α)
  | [] => none
  | record :: records => some (record :: records)

namespace Record

variable {α β : Type}

def map (f : α → β) (record : Record α) : Record β :=
  ⟨record.comment, record.line, f record.content⟩

end Record

namespace MediaRule

variable {δ ε : Type}

def map (f : δ → ε) : MediaRule δ → MediaRule ε
  | .style rule => .style rule
  | .atRule nested => .atRule (f nested)

/-- A rule whose nested text is replaced; without a replacement the rule is dropped. -/
def expand (f : δ → Option ε) : MediaRule δ → Option (MediaRule ε)
  | .style rule => some (.style rule)
  | .atRule nested => (f nested).map .atRule

end MediaRule

namespace MediaBlock

variable {δ ε : Type}

def map (f : δ → ε) (block : MediaBlock δ) : MediaBlock ε :=
  ⟨block.query, block.rules.map (MediaRule.map f)⟩

def expand (f : δ → Option ε) (block : MediaBlock δ) : MediaBlock ε :=
  ⟨block.query, block.rules.filterMap (MediaRule.expand f)⟩

end MediaBlock

namespace Sheet

variable {δ ε : Type}

/-- A sheet with `f` done to its media blocks. -/
def mapMedia (f : MediaBlock δ → MediaBlock ε) (sheet : Sheet δ) : Sheet ε where
  charset := sheet.charset
  imports := sheet.imports
  tailwind := sheet.tailwind
  config := sheet.config
  keyframes := sheet.keyframes
  media := sheet.media.map (List.map (Record.map f))
  styles := sheet.styles

/-- A sheet with `f` done to each nested at-rule. -/
def map (f : δ → ε) : Sheet δ → Sheet ε :=
  mapMedia (MediaBlock.map f)

/-- A sheet with each nested at-rule replaced, or dropped when `f` has no replacement for it. -/
def expand (f : δ → Option ε) : Sheet δ → Sheet ε :=
  mapMedia (MediaBlock.expand f)

/-- Two kinds of records put together. -/
def append {α : Type} : Option (List α) → Option (List α) → Option (List α)
  | none, records => records
  | some records, none => some records
  | some records, some others => some (records ++ others)

/-- The records of two sheets, kind by kind. Of two config records the first is kept. -/
def merge (sheet other : Sheet δ) : Sheet δ where
  charset := append sheet.charset other.charset
  imports := append sheet.imports other.imports
  tailwind := append sheet.tailwind other.tailwind
  config := sheet.config.or other.config
  keyframes := append sheet.keyframes other.keyframes
  media := append sheet.media other.media
  styles := append sheet.styles other.styles

/-- The number of records of a kind. -/
def count {α : Type} (records : Option (List α)) : Nat :=
  (records.getD []).length

/-- The number of records; those of nested at-rules are not counted. -/
def size (sheet : Sheet δ) : Nat :=
  count sheet.charset + count sheet.imports + count sheet.tailwind + sheet.config.toList.length +
    count sheet.keyframes + count sheet.media + count sheet.styles

/-- Whether a kind has no records. -/
def lacks {α : Type} (records : Option (List α)) : Bool :=
  records.all List.isEmpty

/-- Whether no kind has a record. -/
def isEmpty (sheet : Sheet δ) : Bool :=
  lacks sheet.charset && lacks sheet.imports && lacks sheet.tailwind && sheet.config.isNone &&
    lacks sheet.keyframes && lacks sheet.media && lacks sheet.styles

end Sheet

end Stylesheet
