import Stylesheet.Sheet

/-!
# Documents

A document is a sheet whose nested at-rules are documents again.
-/

namespace Stylesheet

structure Document where
  sheet : Sheet Document

namespace Document

def empty : Document :=
  ⟨{}⟩

def merge (document other : Document) : Document :=
  ⟨document.sheet.merge other.sheet⟩

def size (document : Document) : Nat :=
  document.sheet.size

def isEmpty (document : Document) : Bool :=
  document.sheet.isEmpty

variable {α : Type}

mutual

/-- Replaces every sheet of a document by its value under `f`, the innermost first. -/
def fold (f : Sheet α → α) : Document → α
  | ⟨sheet⟩ => f (foldSheet f sheet)

def foldSheet (f : Sheet α → α) : Sheet Document → Sheet α
  | ⟨charset, imports, tailwind, config, keyframes, media, styles⟩ =>
      ⟨charset, imports, tailwind, config, keyframes, foldMedia f media, styles⟩

def foldMedia (f : Sheet α → α) :
    Option (List (Record (MediaBlock Document))) → Option (List (Record (MediaBlock α)))
  | none => none
  | some records => some (foldRecords f records)

def foldRecords (f : Sheet α → α) :
    List (Record (MediaBlock Document)) → List (Record (MediaBlock α))
  | [] => []
  | record :: records => foldRecord f record :: foldRecords f records

def foldRecord (f : Sheet α → α) : Record (MediaBlock Document) → Record (MediaBlock α)
  | ⟨comment, line, block⟩ => ⟨comment, line, foldBlock f block⟩

def foldBlock (f : Sheet α → α) : MediaBlock Document → MediaBlock α
  | ⟨query, rules⟩ => ⟨query, foldRules f rules⟩

def foldRules (f : Sheet α → α) : List (MediaRule Document) → List (MediaRule α)
  | [] => []
  | rule :: rules => foldRule f rule :: foldRules f rules

def foldRule (f : Sheet α → α) : MediaRule Document → MediaRule α
  | .style rule => .style rule
  | .atRule nested => .atRule (fold f nested)

end

theorem foldRules_eq_map (f : Sheet α → α) (rules : List (MediaRule Document)) :
    foldRules f rules = rules.map (MediaRule.map (fold f)) := by
  induction rules with
  | nil => rfl
  | cons rule rules ih => cases rule <;> simp [foldRules, foldRule, MediaRule.map, ih]

theorem foldRecords_eq_map (f : Sheet α → α) (records : List (Record (MediaBlock Document))) :
    foldRecords f records = records.map (Record.map (MediaBlock.map (fold f))) := by
  induction records with
  | nil => rfl
  | cons record records ih =>
      obtain ⟨comment, line, query, rules⟩ := record
      simp [foldRecords, foldRecord, foldBlock, Record.map, MediaBlock.map, foldRules_eq_map, ih]

theorem foldSheet_eq_map (f : Sheet α → α) (sheet : Sheet Document) :
    foldSheet f sheet = sheet.map (fold f) := by
  obtain ⟨_, _, _, _, _, media, _⟩ := sheet
  cases media <;> simp [foldSheet, foldMedia, Sheet.map, Sheet.mapMedia, foldRecords_eq_map]

theorem fold_mk (f : Sheet α → α) (sheet : Sheet Document) :
    fold f ⟨sheet⟩ = f (sheet.map (fold f)) := by
  rw [fold, foldSheet_eq_map]

end Document

end Stylesheet
