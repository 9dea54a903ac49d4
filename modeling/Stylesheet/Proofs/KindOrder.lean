import Stylesheet.Proofs.Fragments
import Stylesheet.Proofs.Merging

/-!
# The order of the kinds

The recognizer of a kind fills that kind of a document and no other, so merging what another one
found leaves the kind as it is. The seven may run in any order, and in another one for every nested
at-rule: the document is the one that is parsed, and every kind of it is what its recognizer finds
alone.
-/

namespace Stylesheet

namespace Sheet

variable {δ ε : Type} {kind other : Kind}

/-- One kind of a sheet; the others are absent. -/
def only (kind : Kind) (sheet : Sheet δ) : Sheet δ :=
  match kind with
  | .charset => { charset := sheet.charset }
  | .imports => { imports := sheet.imports }
  | .tailwind => { tailwind := sheet.tailwind }
  | .config => { config := sheet.config }
  | .keyframes => { keyframes := sheet.keyframes }
  | .media => { media := sheet.media }
  | .styles => { styles := sheet.styles }

theorem only_empty (kind : Kind) : ({} : Sheet δ).only kind = {} := by
  cases kind <;> rfl

theorem only_merge (kind : Kind) (sheet more : Sheet δ) :
    (sheet.merge more).only kind = (sheet.only kind).merge (more.only kind) := by
  cases kind <;> rfl

theorem only_only_of_ne (h : other ≠ kind) (sheet : Sheet δ) :
    (sheet.only other).only kind = {} := by
  cases other <;> cases kind <;> first | rfl | exact absurd rfl h

theorem only_expand (f : δ → Option ε) (kind : Kind) (sheet : Sheet δ) :
    (sheet.expand f).only kind = (sheet.only kind).expand f := by
  cases kind <;> rfl

/-- A sheet is told by its kinds. -/
theorem eq_of_only {sheet more : Sheet δ} (h : ∀ kind, sheet.only kind = more.only kind) :
    sheet = more := by
  have hcharset := congrArg charset (h .charset)
  have himports := congrArg imports (h .imports)
  have htailwind := congrArg tailwind (h .tailwind)
  have hconfig := congrArg config (h .config)
  have hkeyframes := congrArg keyframes (h .keyframes)
  have hmedia := congrArg media (h .media)
  have hstyles := congrArg styles (h .styles)
  obtain ⟨_, _, _, _, _, _, _⟩ := sheet
  obtain ⟨_, _, _, _, _, _, _⟩ := more
  exact (mk.injEq ..).mpr
    ⟨hcharset, himports, htailwind, hconfig, hkeyframes, hmedia, hstyles⟩

/-- The recognizer of a kind finds that kind only. -/
theorem only_read (kind : Kind) (text : Text) : (kind.read text).only kind = kind.read text := by
  cases kind <;> rfl

section Merged

/-- What is found of the given kinds, merged in their order. -/
def merged (found : Kind → Sheet δ) (kinds : List Kind) : Sheet δ :=
  kinds.foldl (fun sheet kind => sheet.merge (found kind)) {}

variable {found : Kind → Sheet δ} (hfound : ∀ kind, (found kind).only kind = found kind)

include hfound

/-- One step: what is found of another kind leaves the kind as it is. -/
theorem only_merge_of_ne (h : other ≠ kind) (sheet : Sheet δ) :
    (sheet.merge (found other)).only kind = sheet.only kind := by
  rw [only_merge, ← hfound other, only_only_of_ne h, merge_empty]

theorem only_foldl_of_notMem {kinds : List Kind} (h : kind ∉ kinds) (sheet : Sheet δ) :
    (kinds.foldl (fun sheet kind => sheet.merge (found kind)) sheet).only kind = sheet.only kind := by
  induction kinds generalizing sheet with
  | nil => rfl
  | cons other kinds ih =>
      obtain ⟨hother, hkinds⟩ := not_or.mp (List.mem_cons.not.mp h)
      rw [List.foldl_cons, ih hkinds, only_merge_of_ne hfound (Ne.symm hother)]

theorem only_foldl_of_mem {kinds : List Kind} (hnodup : kinds.Nodup) (h : kind ∈ kinds)
    {sheet : Sheet δ} (hsheet : sheet.only kind = {}) :
    (kinds.foldl (fun sheet kind => sheet.merge (found kind)) sheet).only kind = found kind := by
  induction kinds generalizing sheet with
  | nil => exact absurd h List.not_mem_nil
  | cons other kinds ih =>
      obtain ⟨hother, hkinds⟩ := List.nodup_cons.mp hnodup
      rw [List.foldl_cons]
      rcases List.mem_cons.mp h with rfl | h
      · rw [only_foldl_of_notMem hfound hother, only_merge, hsheet, hfound, empty_merge]
      · have hne : other ≠ kind := fun heq => hother (heq ▸ h)
        exact ih hkinds h ((only_merge_of_ne hfound hne sheet).trans hsheet)

end Merged

end Sheet

/-- An order in which the kinds are recognized, each of them once. -/
structure Kind.Order where
  kinds : List Kind
  perm : kinds.Perm Kind.all

namespace Kind.Order

def standard : Kind.Order :=
  ⟨Kind.all, .rfl⟩

def backwards : Kind.Order :=
  ⟨Kind.all.reverse, Kind.all.reverse_perm⟩

theorem mem_kinds (order : Kind.Order) (kind : Kind) : kind ∈ order.kinds :=
  order.perm.mem_iff.mpr (by cases kind <;> decide)

theorem nodup (order : Kind.Order) : order.kinds.Nodup :=
  order.perm.nodup_iff.mpr (by decide)

end Kind.Order

/-- All steps: in whatever order the kinds are merged, each is what was found of it. -/
theorem Sheet.only_merged {δ : Type} {found : Kind → Sheet δ}
    (hfound : ∀ kind, (found kind).only kind = found kind) (order : Kind.Order) (kind : Kind) :
    (merged found order.kinds).only kind = found kind :=
  only_foldl_of_mem hfound order.nodup (order.mem_kinds kind) (only_empty kind)

theorem Sheet.only_readKinds (order : Kind.Order) (kind : Kind) (text : Text) :
    (readKinds order.kinds text).only kind = kind.read text :=
  only_merged (fun kind => only_read kind text) order kind

theorem Sheet.readKinds_order (order : Kind.Order) (text : Text) :
    readKinds order.kinds text = readKinds Kind.all text :=
  eq_of_only fun kind =>
    (only_readKinds order kind text).trans (only_readKinds .standard kind text).symm

namespace Document

/-- One kind of a document; the others are absent. -/
def only (kind : Kind) (document : Document) : Document :=
  ⟨document.sheet.only kind⟩

/-- What the recognizer of a kind finds in a text, where `nested` says what becomes of a nested
at-rule. -/
def recognize (nested : Text → Option Document) (kind : Kind) (text : Text) : Document :=
  ⟨(kind.read text).expand nested⟩

/-- What the recognizers of the given kinds find in a text, merged in their order. -/
def recognizeAll (nested : Text → Option Document) (kinds : List Kind) (text : Text) : Document :=
  kinds.foldl (fun document kind => document.merge (recognize nested kind text)) empty

/-- What becomes of a nested at-rule found at a depth when `levels` more are read, each text in an
order of its own. -/
def nestedInOrder (order : (depth : Nat) → Text → Kind.Order) :
    (levels depth : Nat) → Text → Option Document
  | 0, _, _ => none
  | levels + 1, depth, text =>
      some (recognizeAll (nestedInOrder order levels (depth + 1)) (order depth text).kinds text)

/-- The document of a text found at a depth, each text in an order of its own. -/
def parseInOrder (order : (depth : Nat) → Text → Kind.Order) (cap : Option Nat) (depth : Nat)
    (text : Text) : Document :=
  recognizeAll (nestedInOrder order (levelsBelow cap depth text) (depth + 1))
    (order depth text).kinds text

theorem eq_of_sheet {document : Document} {sheet : Sheet Document} (h : document.sheet = sheet) :
    document = ⟨sheet⟩ := by
  cases document
  exact congrArg mk h

theorem recognizeAll_eq (nested : Text → Option Document) (kinds : List Kind) (text : Text) :
    recognizeAll nested kinds text = ⟨(Sheet.readKinds kinds text).expand nested⟩ := by
  refine eq_of_sheet ?_
  rw [Sheet.expand_readKinds]
  exact (List.foldl_hom sheet fun _ _ => rfl).symm

theorem nestedInOrder_eq (order : (depth : Nat) → Text → Kind.Order) (levels depth : Nat) :
    nestedInOrder order levels depth = nestedWithin levels := by
  induction levels generalizing depth with
  | zero => rfl
  | succ levels ih =>
      funext text
      rw [nestedInOrder, ih, recognizeAll_eq, Sheet.readKinds_order, nestedWithin,
        readKinds_eq_expand]

theorem parseInOrder_eq (order : (depth : Nat) → Text → Kind.Order) (cap : Option Nat) (depth : Nat)
    (text : Text) : parseInOrder order cap depth text = parseAt cap depth text := by
  rw [parseInOrder, nestedInOrder_eq, recognizeAll_eq, Sheet.readKinds_order, parseAt,
    readKinds_eq_expand]

theorem only_parseAt (kind : Kind) (cap : Option Nat) (depth : Nat) (text : Text) :
    (parseAt cap depth text).only kind = parseKind kind cap depth text := by
  have hkind := Sheet.only_readKinds .standard kind text
  rw [parseAt_eq, parseKind_eq, only, Sheet.only_expand]
  exact congrArg (fun sheet => mk (sheet.expand (parseNested cap (depth + 1)))) hkind

end Document

/-- **Recognizers do not interfere.** In whatever order they run, on the source and on each nested
at-rule, the document is the one that is parsed; and at every depth each of its kinds is what the
recognizer of the kind finds alone. -/
theorem Config.parseInOrder_eq_parse (config : Config) (order : (depth : Nat) → Text → Kind.Order)
    (source : Text) :
    Document.parseInOrder order config.maxNesting 0 source = config.parse source ∧
      (∀ kind, (config.parse source).only kind =
        Document.parseKind kind config.maxNesting 0 source) ∧
      ∀ depth inner, (config.parse source).Holds depth inner →
        ∃ text, text <:+: source ∧
          Document.parseInOrder order config.maxNesting depth text = inner ∧
          ∀ kind, inner.only kind = Document.parseKind kind config.maxNesting depth text := by
  refine ⟨Document.parseInOrder_eq order config.maxNesting 0 source,
    fun kind => Document.only_parseAt kind config.maxNesting 0 source, fun depth inner hinner => ?_⟩
  obtain ⟨text, htext, rfl⟩ := hinner.exists_text
  exact ⟨text, htext, Document.parseInOrder_eq order config.maxNesting depth text,
    fun kind => Document.only_parseAt kind config.maxNesting depth text⟩

example : Document.parseInOrder (fun _ _ => .backwards) none 0 tiered =
    ⟨{ media := some [.ofMedia "a".toList [.atRule middle]] }⟩ :=
  rfl

end Stylesheet
