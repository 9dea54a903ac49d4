import Mathlib.Algebra.BigOperators.Group.List.Basic
import Mathlib.Algebra.GroupWithZero.Nat
import Stylesheet.Proofs.SheetKinds

/-!
# Merging

Documents form a monoid under merging. Merged from the first to the last, documents keep all their
records, kind by kind and in order; only of the config records all but the first are passed over. A
kind is absent from what is merged only when it is absent everywhere, so an empty kind is not lost.
-/

namespace Stylesheet

namespace Sheet

variable {δ : Type}

theorem merge_empty (sheet : Sheet δ) : sheet.merge {} = sheet := by
  simp [merge, append_none]

theorem empty_merge (sheet : Sheet δ) : ({} : Sheet δ).merge sheet = sheet :=
  rfl

theorem merge_assoc (first second third : Sheet δ) :
    (first.merge second).merge third = first.merge (second.merge third) := by
  simp only [merge, append_assoc, Option.or_assoc]

theorem isEmpty_eq_true_iff (sheet : Sheet δ) : sheet.isEmpty = true ↔ sheet.size = 0 := by
  have hconfig : sheet.config.isNone = true ↔ sheet.config.toList.length = 0 := by
    cases sheet.config <;> simp
  simp only [isEmpty, size, Bool.and_eq_true, lacks_eq_true_iff, hconfig]
  omega

/-- Sheets merged from the first to the last. -/
def mergeAll (sheets : List (Sheet δ)) : Sheet δ :=
  sheets.foldl merge {}

/-- One kind of several sheets put together: the records of all of them in order. It is absent just
when they all lack it. -/
structure Gathered {α : Type} (find : Sheet δ → Option (List α)) (sheets : List (Sheet δ))
    (kind : Option (List α)) : Prop where
  records : kind.getD [] = sheets.flatMap fun sheet => (find sheet).getD []
  absent : kind = none ↔ ∀ sheet ∈ sheets, find sheet = none

namespace Gathered

variable {α : Type} {find : Sheet δ → Option (List α)} {sheets : List (Sheet δ)}
  {kind : Option (List α)}

theorem nil : Gathered find [] none where
  records := rfl
  absent := by simp

/-- One step: the kind of one more sheet is put behind. -/
theorem concat (h : Gathered find sheets kind) (sheet : Sheet δ) :
    Gathered find (sheets ++ [sheet]) (append kind (find sheet)) where
  records := by
    rw [getD_append, h.records, List.flatMap_append, List.flatMap_singleton]
  absent := by
    rw [append_eq_none_iff, h.absent, List.forall_mem_append, List.forall_mem_singleton]

/-- All steps: merging the sheets gathers each kind that merging puts together. -/
theorem foldl (hmerge : ∀ sheet more, find (sheet.merge more) = append (find sheet) (find more))
    {sheet : Sheet δ} (h : Gathered find sheets (find sheet)) (others : List (Sheet δ)) :
    Gathered find (sheets ++ others) (find (others.foldl merge sheet)) := by
  induction others generalizing sheets sheet with
  | nil => simpa using h
  | cons other others ih =>
      rw [List.foldl_cons, List.append_cons]
      exact ih (hmerge sheet other ▸ h.concat other)

theorem count_eq (h : Gathered find sheets kind) :
    count kind = (sheets.map fun sheet => count (find sheet)).sum := by
  rw [count, h.records, List.length_flatMap]
  rfl

end Gathered

theorem gathered_mergeAll {α : Type} (find : Sheet δ → Option (List α)) (hempty : find {} = none)
    (hmerge : ∀ sheet more, find (sheet.merge more) = append (find sheet) (find more))
    (sheets : List (Sheet δ)) : Gathered find sheets (find (mergeAll sheets)) := by
  have hnil : Gathered find [] (find {}) := hempty ▸ Gathered.nil
  exact hnil.foldl hmerge sheets

theorem config_foldl (sheet : Sheet δ) (sheets : List (Sheet δ)) :
    (sheets.foldl merge sheet).config = sheet.config.or (sheets.findSome? config) := by
  induction sheets generalizing sheet with
  | nil => simp
  | cons other sheets ih =>
      have hfirst : (other :: sheets).findSome? config =
          other.config.or (sheets.findSome? config) := by
        cases hother : other.config <;> simp [hother]
      rw [List.foldl_cons, ih, hfirst, ← Option.or_assoc]
      rfl

/-- A sheet that holds what several sheets hold together. -/
structure Gathers (sheets : List (Sheet δ)) (sheet : Sheet δ) : Prop where
  charset : Gathered charset sheets sheet.charset
  imports : Gathered imports sheets sheet.imports
  tailwind : Gathered tailwind sheets sheet.tailwind
  config : sheet.config = sheets.findSome? config
  keyframes : Gathered keyframes sheets sheet.keyframes
  media : Gathered media sheets sheet.media
  styles : Gathered styles sheets sheet.styles

theorem gathers_mergeAll (sheets : List (Sheet δ)) : Gathers sheets (mergeAll sheets) where
  charset := gathered_mergeAll Sheet.charset rfl (fun _ _ => rfl) sheets
  imports := gathered_mergeAll Sheet.imports rfl (fun _ _ => rfl) sheets
  tailwind := gathered_mergeAll Sheet.tailwind rfl (fun _ _ => rfl) sheets
  config := config_foldl {} sheets
  keyframes := gathered_mergeAll Sheet.keyframes rfl (fun _ _ => rfl) sheets
  media := gathered_mergeAll Sheet.media rfl (fun _ _ => rfl) sheets
  styles := gathered_mergeAll Sheet.styles rfl (fun _ _ => rfl) sheets

/-- The sizes of sheets, kind by kind. -/
theorem sum_map_size (sheets : List (Sheet δ)) :
    (sheets.map size).sum =
      (sheets.map fun sheet => count sheet.charset).sum +
        (sheets.map fun sheet => count sheet.imports).sum +
        (sheets.map fun sheet => count sheet.tailwind).sum +
        (sheets.filterMap Sheet.config).length +
        (sheets.map fun sheet => count sheet.keyframes).sum +
        (sheets.map fun sheet => count sheet.media).sum +
        (sheets.map fun sheet => count sheet.styles).sum := by
  have hconfigs : (sheets.filterMap Sheet.config).length =
      (sheets.map fun sheet => sheet.config.toList.length).sum := by
    rw [List.filterMap_eq_flatMap_toList, List.length_flatMap]
  rw [hconfigs]
  simp only [← List.sum_map_add]
  rfl

/-- Every record is counted but the config records after the first. -/
theorem Gathers.size_add {sheets : List (Sheet δ)} {sheet : Sheet δ} (h : Gathers sheets sheet) :
    sheet.size + (sheets.filterMap Sheet.config).tail.length = (sheets.map size).sum := by
  have hconfig : sheet.config.toList.length + (sheets.filterMap Sheet.config).tail.length =
      (sheets.filterMap Sheet.config).length := by
    rw [h.config, ← List.head?_filterMap]
    cases sheets.filterMap Sheet.config with
    | nil => rfl
    | cons first later => exact Nat.add_comm 1 later.length
  rw [sum_map_size, ← h.charset.count_eq, ← h.imports.count_eq, ← h.tailwind.count_eq,
    ← h.keyframes.count_eq, ← h.media.count_eq, ← h.styles.count_eq, ← hconfig, size]
  omega

end Sheet

namespace Document

theorem merge_assoc (first second third : Document) :
    (first.merge second).merge third = first.merge (second.merge third) :=
  congrArg mk (Sheet.merge_assoc first.sheet second.sheet third.sheet)

theorem empty_merge (document : Document) : empty.merge document = document := by
  obtain ⟨sheet⟩ := document
  exact congrArg mk sheet.empty_merge

theorem merge_empty (document : Document) : document.merge empty = document := by
  obtain ⟨sheet⟩ := document
  exact congrArg mk sheet.merge_empty

/-- Documents merged from the first to the last. -/
def mergeAll (documents : List Document) : Document :=
  documents.foldl merge empty

theorem sheet_mergeAll (documents : List Document) :
    (mergeAll documents).sheet = Sheet.mergeAll (documents.map sheet) := by
  rw [mergeAll, Sheet.mergeAll, List.foldl_map]
  exact (List.foldl_hom sheet fun _ _ => rfl).symm

/-- **Merging is a monoid that accounts for every record.** Grouping does not matter and the empty
document changes nothing, an empty kind staying one. What documents are merged into has, of each
kind, all their records in order, and the first of their config records; its size is the sum of
theirs less one for each config record after the first. A document is empty just when its size is
zero. -/
theorem merge_monoid :
    (∀ first second third : Document,
      (first.merge second).merge third = first.merge (second.merge third)) ∧
    (∀ document : Document, empty.merge document = document ∧ document.merge empty = document) ∧
    (∀ documents : List Document,
      Sheet.Gathers (documents.map sheet) (mergeAll documents).sheet ∧
      (mergeAll documents).size + (documents.filterMap (·.sheet.config)).tail.length =
        (documents.map size).sum) ∧
    ∀ document : Document, document.isEmpty = true ↔ document.size = 0 := by
  refine ⟨merge_assoc, fun document => ⟨document.empty_merge, document.merge_empty⟩,
    fun documents => ?_, fun document => document.sheet.isEmpty_eq_true_iff⟩
  have hgathers : Sheet.Gathers (documents.map sheet) (mergeAll documents).sheet := by
    rw [sheet_mergeAll]
    exact Sheet.gathers_mergeAll _
  have hsize := hgathers.size_add
  rw [List.filterMap_map, List.map_map] at hsize
  exact ⟨hgathers, hsize⟩

example : (mergeAll [empty, ⟨{ imports := some [] }⟩, empty]).sheet.imports = some [] :=
  rfl

end Document

end Stylesheet
