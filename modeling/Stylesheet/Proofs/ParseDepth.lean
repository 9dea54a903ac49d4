import Stylesheet.Parse
import Stylesheet.Proofs.HeaderForms
import Stylesheet.Proofs.BlockLemmas
import Stylesheet.Proofs.NestedRules
import Stylesheet.Proofs.SheetKinds

/-!
# Parsing at a depth

A nested at-rule is a piece of a block inside a media block, so it is shorter than the text around
it, and the levels that a parse is given never run out before the text does. What remains is the
recursion on the depth: a nested at-rule is parsed one level deeper if the cap keeps that depth.
-/

namespace Stylesheet

namespace MediaBlock

theorem exists_of_mem_nested {text nested : Text} {record : Record (MediaBlock Text)}
    (hrecord : record ∈ records text) (hnested : nested ∈ record.content.nested) :
    ∃ before after, text = before ++ nested ++ after ∧ after ≠ [] := by
  obtain ⟨site, hsite, rfl⟩ := List.mem_map.mp hrecord
  obtain ⟨passed, ahead, length, rfl, -, hmove⟩ := mem_scan hsite
  obtain ⟨rule, hrule, hatRule⟩ := List.mem_filterMap.mp hnested
  obtain ⟨inner, hinner, hruleOf⟩ := List.mem_filterMap.mp hrule
  obtain ⟨innerSite, hinnerSite, rfl⟩ := List.mem_map.mp hinner
  obtain ⟨skipped, rest, size, hinterior, -, hinnerMove⟩ := mem_scan hinnerSite
  obtain ⟨more, rfl, -⟩ := Block.text_eq_append innerHeader_reads hinnerMove
  obtain ⟨after, rfl, -⟩ := Block.text_eq_append header_reads hmove
  have hpiece : nested = innerSite.content.text := by
    rw [MediaRule.nested?_eq_some_iff] at hatRule
    subst hatRule
    unfold ruleOf? at hruleOf
    split at hruleOf
    · contradiction
    · exact (MediaRule.atRule.inj (Option.some.inj hruleOf)).symm
    · cases hruleOf
  refine ⟨passed ++ site.content.header.text ++ skipped, more ++ ['}'] ++ after, ?_, by simp⟩
  rw [Block.text, hinterior, hpiece]
  simp only [List.append_assoc]

end MediaBlock

namespace Sheet

theorem nested_merge {δ : Type} (sheet other : Sheet δ) :
    (sheet.merge other).nested = sheet.nested ++ other.nested := by
  rw [nested, merge, getD_append, List.flatMap_append]
  rfl

/-- The nested at-rules of a sheet are those of its kinds. -/
theorem expand_readKinds {ε : Type} (f : Text → Option ε) (kinds : List Kind) (text : Text) :
    (readKinds kinds text).expand f =
      kinds.foldl (fun sheet kind => sheet.merge ((kind.read text).expand f)) {} :=
  (List.foldl_hom (expand f) fun sheet kind => (sheet.expand_merge f (kind.read text)).symm).symm

theorem nested_read_subset (kind : Kind) (text : Text) :
    (kind.read text).nested ⊆ (MediaBlock.records text).flatMap fun record =>
      record.content.nested := by
  cases kind with
  | media =>
      unfold nested Kind.read
      cases MediaBlock.records text <;> simp [present]
  | _ => simp [nested, Kind.read]

theorem nested_readKinds_subset (kinds : List Kind) (text : Text) :
    (readKinds kinds text).nested ⊆ (MediaBlock.records text).flatMap fun record =>
      record.content.nested := by
  suffices h : ∀ sheet : Sheet Text,
      sheet.nested ⊆ ((MediaBlock.records text).flatMap fun record => record.content.nested) →
      (kinds.foldl (fun sheet kind => sheet.merge (kind.read text)) sheet).nested ⊆
        (MediaBlock.records text).flatMap fun record => record.content.nested from
    h {} (by simp [nested])
  induction kinds with
  | nil => exact fun sheet hsheet => hsheet
  | cons kind kinds ih =>
      intro sheet hsheet
      refine ih _ ?_
      rw [nested_merge]
      exact List.append_subset.mpr ⟨hsheet, nested_read_subset kind text⟩

/-- A nested at-rule is shorter than the text it stands in. -/
theorem length_lt_of_mem_nested {kinds : List Kind} {text nested : Text}
    (h : nested ∈ (readKinds kinds text).nested) : nested.length < text.length := by
  obtain ⟨record, hrecord, hnested⟩ := List.mem_flatMap.mp (nested_readKinds_subset kinds text h)
  obtain ⟨before, after, rfl, hafter⟩ := MediaBlock.exists_of_mem_nested hrecord hnested
  have hlength := List.length_pos_iff.mpr hafter
  simp only [List.length_append]
  omega

end Sheet

namespace Document

/-- What becomes of a nested at-rule when `levels` more are read. -/
def nestedWithin : (levels : Nat) → Text → Option Document
  | 0, _ => none
  | levels + 1, nested => some (readKinds Kind.all levels nested)

theorem readKinds_eq_expand (kinds : List Kind) (levels : Nat) (text : Text) :
    readKinds kinds levels text = ⟨(Sheet.readKinds kinds text).expand (nestedWithin levels)⟩ := by
  cases levels <;> rfl

/-- Levels beyond the length of the text make no difference. -/
theorem readKinds_eq_of_length_le (kinds : List Kind) {levels levels' : Nat} {text : Text}
    (h : text.length ≤ levels) (h' : text.length ≤ levels') :
    readKinds kinds levels text = readKinds kinds levels' text := by
  induction levels generalizing levels' text kinds with
  | zero =>
      rw [readKinds_eq_expand, readKinds_eq_expand]
      congr 1
      apply Sheet.expand_congr
      intro nested hnested
      have hlength := Sheet.length_lt_of_mem_nested hnested
      omega
  | succ levels ih =>
      rw [readKinds_eq_expand, readKinds_eq_expand]
      congr 1
      apply Sheet.expand_congr
      intro nested hnested
      have hlength := Sheet.length_lt_of_mem_nested hnested
      cases levels' with
      | zero => omega
      | succ levels' => exact congrArg some (ih Kind.all (by omega) (by omega))

/-- Whether nested at-rules are kept at a depth. -/
def keeps (cap : Option Nat) (depth : Nat) : Bool :=
  cap.all fun most => depth ≤ most

/-- The document of a text found at a depth. -/
def parseAt (cap : Option Nat) (depth : Nat) (text : Text) : Document :=
  readKinds Kind.all (levelsBelow cap depth text) text

/-- The document of a nested at-rule found at a depth, unless the cap drops it. -/
def parseNested (cap : Option Nat) (depth : Nat) (text : Text) : Option Document :=
  if keeps cap depth then some (parseAt cap depth text) else none

theorem parseAt_of_parseNested {cap : Option Nat} {depth : Nat} {text : Text} {nested : Document}
    (h : parseNested cap depth text = some nested) : nested = parseAt cap depth text := by
  rw [parseNested] at h
  split at h
  · exact (Option.some.inj h).symm
  · contradiction

theorem nestedWithin_eq_parseNested {cap : Option Nat} {depth : Nat} {text nested : Text}
    (h : nested.length < text.length) :
    nestedWithin (levelsBelow cap depth text) nested = parseNested cap (depth + 1) nested := by
  cases cap with
  | none =>
      obtain ⟨levels, hlevels⟩ : ∃ levels, text.length = levels + 1 :=
        Nat.exists_eq_succ_of_ne_zero (by omega)
      have hread := readKinds_eq_of_length_le Kind.all (show nested.length ≤ levels by omega)
        (Nat.le_refl nested.length)
      simp [parseNested, keeps, levelsBelow, hlevels, nestedWithin, parseAt, hread]
  | some most =>
      by_cases hmost : depth + 1 ≤ most
      · have hkeeps : keeps (some most) (depth + 1) = true := decide_eq_true hmost
        have hlevels : most - depth = most - (depth + 1) + 1 := by omega
        rw [parseNested, if_pos hkeeps, levelsBelow, hlevels]
        rfl
      · have hkeeps : ¬keeps (some most) (depth + 1) = true := fun h => hmost (of_decide_eq_true h)
        have hlevels : most - depth = 0 := by omega
        rw [parseNested, if_neg hkeeps, levelsBelow, hlevels]
        rfl

theorem parseKind_eq (kind : Kind) (cap : Option Nat) (depth : Nat) (text : Text) :
    parseKind kind cap depth text =
      ⟨(Sheet.readKinds [kind] text).expand (parseNested cap (depth + 1))⟩ := by
  rw [parseKind, readKinds_eq_expand]
  congr 1
  exact Sheet.expand_congr fun nested hnested =>
    nestedWithin_eq_parseNested (Sheet.length_lt_of_mem_nested hnested)

theorem parseAt_eq (cap : Option Nat) (depth : Nat) (text : Text) :
    parseAt cap depth text =
      ⟨(Sheet.readKinds Kind.all text).expand (parseNested cap (depth + 1))⟩ := by
  rw [parseAt, readKinds_eq_expand]
  congr 1
  exact Sheet.expand_congr fun nested hnested =>
    nestedWithin_eq_parseNested (Sheet.length_lt_of_mem_nested hnested)

/-- Kind by kind, the document of a text found at a depth. -/
theorem sheet_parseAt (cap : Option Nat) (depth : Nat) (text : Text) :
    (parseAt cap depth text).sheet =
      { charset := present (Directive.records Directive.charset text)
        imports := present (Directive.records Directive.imports text)
        tailwind := present (Directive.records Directive.tailwind text)
        config := (Directive.records Directive.config text).head?
        keyframes := present (Keyframes.records text)
        media := present ((MediaBlock.records text).map
          (Record.map (MediaBlock.expand (parseNested cap (depth + 1)))))
        styles := present (StyleRule.records text) } := by
  rw [parseAt_eq, Sheet.readKinds_all, present_map]
  rfl

theorem parse_eq_parseAt (cap : Option Nat) (text : Text) : parse cap text = parseAt cap 0 text :=
  rfl

end Document

end Stylesheet
