import Stylesheet.Proofs.ParseDepth

/-!
# The nesting cap

A cap cuts the document that is parsed without one off at a depth, and does nothing else to it.
-/

namespace Stylesheet.Document

/-- A document found at a depth without the at-rules nested deeper than `most`. -/
def prune (most : Nat) : Document → (depth : Nat) → Document :=
  fold fun sheet depth =>
    ⟨sheet.expand fun nested => if depth + 1 ≤ most then some (nested (depth + 1)) else none⟩

/-- How deep at-rules are nested in a document. -/
def nesting : Document → Nat :=
  fold fun sheet => sheet.nested.foldr (fun inner deepest => max (inner + 1) deepest) 0

theorem prune_mk (most : Nat) (sheet : Sheet Document) (depth : Nat) :
    prune most ⟨sheet⟩ depth = ⟨sheet.expand fun nested =>
      if depth + 1 ≤ most then some (prune most nested (depth + 1)) else none⟩ := by
  unfold prune
  rw [fold_mk, Sheet.expand_map]
  rfl

theorem nesting_mk (sheet : Sheet Document) :
    nesting ⟨sheet⟩ =
      (sheet.nested.map nesting).foldr (fun inner deepest => max (inner + 1) deepest) 0 := by
  unfold nesting
  rw [fold_mk, Sheet.nested_map]

theorem nesting_le_iff {sheet : Sheet Document} {most : Nat} :
    nesting ⟨sheet⟩ ≤ most ↔ ∀ nested ∈ sheet.nested, nested.nesting + 1 ≤ most := by
  rw [nesting_mk]
  induction sheet.nested with
  | nil => simp
  | cons nested others ih =>
      rw [List.map_cons, List.foldr_cons, Nat.max_le, ih, List.forall_mem_cons]

/-- Nothing is left below the depth that a document is pruned to. -/
theorem nesting_prune_le (most : Nat) (document : Document) (depth : Nat) :
    (prune most document depth).nesting ≤ most - depth := by
  induction document using Document.induction generalizing depth with
  | step sheet ih =>
      rw [prune_mk, nesting_le_iff, Sheet.nested_expand]
      intro nested hnested
      obtain ⟨inner, hinner, hkept⟩ := List.mem_filterMap.mp hnested
      split at hkept
      · obtain rfl := Option.some.inj hkept
        have hle := ih inner hinner (depth + 1)
        omega
      · contradiction

/-- Pruning a document below its deepest at-rule changes nothing. -/
theorem prune_eq_self {most depth : Nat} {document : Document}
    (h : document.nesting + depth ≤ most) : prune most document depth = document := by
  induction document using Document.induction generalizing depth with
  | step sheet ih =>
      have hsheet : nesting ⟨sheet⟩ ≤ most - depth := by omega
      rw [prune_mk]
      congr 1
      conv_rhs => rw [← sheet.expand_some]
      apply Sheet.expand_congr
      intro nested hnested
      have hnesting := nesting_le_iff.mp hsheet nested hnested
      rw [if_pos (by omega), ih nested hnested (by omega)]

/-- One level of the recursion, and by it the whole of it. -/
theorem parseAt_some_eq_prune (most depth : Nat) (text : Text) :
    parseAt (some most) depth text = prune most (parseAt none depth text) depth := by
  induction hlength : text.length using Nat.strong_induction_on generalizing depth text with
  | _ length ih =>
      rw [parseAt_eq, parseAt_eq, prune_mk, Sheet.expand_expand]
      congr 1
      apply Sheet.expand_congr
      intro nested hnested
      have hshorter := Sheet.length_lt_of_mem_nested hnested
      rw [hlength] at hshorter
      have hnested := ih nested.length hshorter (depth + 1) nested rfl
      simp [parseNested, keeps, hnested]

/-- **The nesting cap.** Parsing with a cap is parsing without one and deleting what is nested deeper
than the cap; so nothing deeper is left, and a cap that no at-rule exceeds is no cap. -/
theorem parse_some_eq_prune (most : Nat) (text : Text) :
    parse (some most) text = (parse none text).prune most 0 ∧
      (parse (some most) text).nesting ≤ most ∧
      ((parse none text).nesting ≤ most → parse (some most) text = parse none text) := by
  have hprune : parse (some most) text = (parse none text).prune most 0 :=
    parseAt_some_eq_prune most 0 text
  refine ⟨hprune, ?_, fun hnesting => ?_⟩
  · rw [hprune]
    exact nesting_prune_le most (parse none text) 0
  · rw [hprune]
    exact prune_eq_self hnesting

end Stylesheet.Document
