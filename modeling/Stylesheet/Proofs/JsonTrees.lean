import Mathlib.Data.List.Basic
import Stylesheet.Document.ToJson
import Stylesheet.Json.SourceTree

/-!
# Trees of JSON values

What a value says about the text that it is written as: how deep its brackets are, which numbers it
holds, and the tree that is to be read of it.
-/

namespace Stylesheet.Json

/-- Induction over the items and members of a value. -/
theorem induction {motive : Json → Prop} (null : motive .null) (bool : ∀ value, motive (.bool value))
    (number : ∀ value, motive (.number value)) (string : ∀ value, motive (.string value))
    (array : ∀ items, (∀ item ∈ items, motive item) → motive (.array items))
    (object : ∀ members : List (Text × Json), (∀ member ∈ members, motive member.2) →
      motive (.object members))
    (json : Json) : motive json := by
  refine @Json.rec motive (fun items => ∀ item ∈ items, motive item)
    (fun members => ∀ member ∈ members, motive member.2) (fun member => motive member.2)
    null bool number string array object ?noItem ?item ?noMember ?member ?pair json
  case noItem => simp
  case item =>
    intro item items hitem hitems other hother
    rcases List.mem_cons.mp hother with rfl | hother
    · exact hitem
    · exact hitems other hother
  case noMember => simp
  case member =>
    intro member members hmember hmembers other hother
    rcases List.mem_cons.mp hother with rfl | hother
    · exact hmember
    · exact hmembers other hother
  case pair => exact fun key value hvalue => hvalue

/-- What is made of each kind of value, once it is made of its items and members. -/
structure Algebra (α : Type) where
  null : α
  bool : Bool → α
  number : Nat → α
  string : Text → α
  array : List α → α
  object : List (Text × α) → α

section Fold

variable {α : Type} (algebra : Algebra α)

mutual

def fold : Json → α
  | .null => algebra.null
  | .bool value => algebra.bool value
  | .number value => algebra.number value
  | .string value => algebra.string value
  | .array items => algebra.array (foldItems items)
  | .object members => algebra.object (foldMembers members)

def foldItems : List Json → List α
  | [] => []
  | item :: items => fold item :: foldItems items

def foldMembers : List (Text × Json) → List (Text × α)
  | [] => []
  | member :: members => foldMember member :: foldMembers members

def foldMember : Text × Json → Text × α
  | (key, value) => (key, fold value)

end

theorem foldItems_eq_map (items : List Json) :
    foldItems algebra items = items.map (fold algebra) := by
  induction items with
  | nil => rfl
  | cons item items ih => rw [foldItems, ih, List.map_cons]

theorem foldMembers_eq_map (members : List (Text × Json)) :
    foldMembers algebra members = members.map fun member => (member.1, fold algebra member.2) := by
  induction members with
  | nil => rfl
  | cons member members ih => rw [foldMembers, ih, List.map_cons, foldMember]

theorem fold_array (items : List Json) :
    fold algebra (.array items) = algebra.array (items.map (fold algebra)) := by
  rw [fold, foldItems_eq_map]

theorem fold_object (members : List (Text × Json)) :
    fold algebra (.object members) =
      algebra.object (members.map fun member => (member.1, fold algebra member.2)) := by
  rw [fold, foldMembers_eq_map]

end Fold

def deepest (depths : List Nat) : Nat :=
  depths.foldr max 0

theorem deepest_cons (depth : Nat) (depths : List Nat) :
    deepest (depth :: depths) = max depth (deepest depths) := rfl

theorem deepest_le_iff {depths : List Nat} {most : Nat} :
    deepest depths ≤ most ↔ ∀ depth ∈ depths, depth ≤ most := by
  induction depths with
  | nil => simp [deepest]
  | cons depth depths ih =>
      rw [List.forall_mem_cons, ← ih]
      exact Nat.max_le

/-- How many brackets of a value are open at once. -/
def depth : Json → Nat :=
  fold {
    null := 0
    bool _ := 0
    number _ := 0
    string _ := 0
    array depths := deepest depths + 1
    object members := deepest (members.map Prod.snd) + 1 }

theorem depth_array (items : List Json) : depth (.array items) = deepest (items.map depth) + 1 := by
  rw [depth, fold_array]

theorem depth_object (members : List (Text × Json)) :
    depth (.object members) = deepest (members.map fun member => member.2.depth) + 1 := by
  rw [depth, fold_object]
  simp only [List.map_map, Function.comp_def]

theorem depth_array_le_succ {items : List Json} {most : Nat} :
    depth (.array items) ≤ most + 1 ↔ ∀ item ∈ items, item.depth ≤ most := by
  rw [depth_array, Nat.add_le_add_iff_right, deepest_le_iff, List.forall_mem_map]

theorem depth_object_le_succ {members : List (Text × Json)} {most : Nat} :
    depth (.object members) ≤ most + 1 ↔ ∀ member ∈ members, member.2.depth ≤ most := by
  rw [depth_object, Nat.add_le_add_iff_right, deepest_le_iff, List.forall_mem_map]

theorem depth_lt_array {item : Json} {items : List Json} (hitem : item ∈ items) :
    item.depth < depth (.array items) := by
  rw [depth_array, Nat.lt_succ_iff]
  exact deepest_le_iff.mp (Nat.le_refl _) _ (List.mem_map_of_mem hitem)

theorem depth_lt_object {member : Text × Json} {members : List (Text × Json)}
    (hmember : member ∈ members) : member.2.depth < depth (.object members) := by
  rw [depth_object, Nat.lt_succ_iff]
  exact deepest_le_iff.mp (Nat.le_refl _) _ (List.mem_map.mpr ⟨member, hmember, rfl⟩)

theorem depth_array_pos (items : List Json) : 0 < depth (.array items) := by
  rw [depth_array]
  exact Nat.succ_pos _

theorem depth_object_pos (members : List (Text × Json)) : 0 < depth (.object members) := by
  rw [depth_object]
  exact Nat.succ_pos _

def numbers : Json → List Nat :=
  fold {
    null := []
    bool _ := []
    number value := [value]
    string _ := []
    array := List.flatten
    object members := (members.map Prod.snd).flatten }

theorem numbers_array (items : List Json) : numbers (.array items) = items.flatMap numbers := by
  rw [numbers, fold_array, List.flatMap_def]

theorem numbers_object (members : List (Text × Json)) :
    numbers (.object members) = members.flatMap fun member => member.2.numbers := by
  rw [numbers, fold_object, List.flatMap_def]
  simp only [List.map_map, Function.comp_def]

/-- A value that both readers read. -/
def Scanned.clean {α : Type} (value : α) : Scanned α :=
  ⟨.ok value, none⟩

/-- The tree of a text that holds a value and no fault. -/
def tree : Json → SourceTree :=
  fold {
    null := .null
    bool := .bool
    number value := .number (.clean (.integer value))
    string value := .string (.clean value)
    array items := .array items .closed
    object members := .object (members.map fun member => (.clean member.1, member.2)) .closed }

theorem tree_array (items : List Json) : tree (.array items) = .array (items.map tree) .closed := by
  rw [tree, fold_array]

theorem tree_object (members : List (Text × Json)) :
    tree (.object members) =
      .object (members.map fun member => (.clean member.1, member.2.tree)) .closed := by
  rw [tree, fold_object]
  simp only [List.map_map, Function.comp_def]

/-! A tree without faults fails a strict reader only by its depth, and a lax reader not at all. -/

namespace SourceTree

theorem itemFault?_tree {levels : Nat} {items : List Json}
    (h : ∀ item ∈ items, fault? levels item.tree =
      if item.depth ≤ levels then none else some .recursionLimit) :
    itemFault? levels (items.map tree) =
      if ∀ item ∈ items, item.depth ≤ levels then none else some .recursionLimit := by
  induction items with
  | nil => simp [itemFault?]
  | cons item items ih =>
      obtain ⟨hitem, hitems⟩ := List.forall_mem_cons.mp h
      rw [List.map_cons, itemFault?, hitem, ih hitems]
      simp only [List.forall_mem_cons]
      by_cases hdepth : item.depth ≤ levels
      · rw [if_pos hdepth, Option.none_or]
        exact if_congr (by simp only [hdepth, true_and]) rfl rfl
      · rw [if_neg hdepth, Option.some_or, if_neg fun hall => hdepth hall.1]

theorem memberFault?_tree {levels : Nat} {members : List (Text × Json)}
    (h : ∀ member ∈ members, fault? levels member.2.tree =
      if member.2.depth ≤ levels then none else some .recursionLimit) :
    memberFault? levels (members.map fun member => (.clean member.1, member.2.tree)) =
      if ∀ member ∈ members, member.2.depth ≤ levels then none else some .recursionLimit := by
  induction members with
  | nil => simp [memberFault?]
  | cons member members ih =>
      obtain ⟨hmember, hmembers⟩ := List.forall_mem_cons.mp h
      rw [List.map_cons, memberFault?, hmember, ih hmembers]
      simp only [List.forall_mem_cons, strictFault?, Scanned.clean, Option.none_or]
      by_cases hdepth : member.2.depth ≤ levels
      · rw [if_pos hdepth, Option.none_or]
        exact if_congr (by simp only [hdepth, true_and]) rfl rfl
      · rw [if_neg hdepth, Option.some_or, if_neg fun hall => hdepth hall.1]

theorem fault?_tree (json : Json) : ∀ levels, fault? levels json.tree =
    if json.depth ≤ levels then none else some .recursionLimit := by
  induction json using Json.induction with
  | null | bool | number | string => exact fun levels => by cases levels <;> rfl
  | array items ih =>
      intro levels
      rw [tree_array]
      cases levels with
      | zero => rw [fault?, if_neg (Nat.not_le.mpr (depth_array_pos items))]
      | succ levels =>
          rw [fault?, itemFault?_tree fun item hitem => ih item hitem levels]
          simp only [depth_array_le_succ, Ending.listFault?, Option.or_none]
  | object members ih =>
      intro levels
      rw [tree_object]
      cases levels with
      | zero => rw [fault?, if_neg (Nat.not_le.mpr (depth_object_pos members))]
      | succ levels =>
          rw [fault?, memberFault?_tree fun member hmember => ih member hmember levels]
          simp only [depth_object_le_succ, Ending.objectFault?, Option.or_none]

theorem laxItems?_eq_none {items : List SourceTree} (h : ∀ item ∈ items, item.laxFault? = none) :
    laxItems? items = none := by
  induction items with
  | nil => rfl
  | cons item items ih =>
      obtain ⟨hitem, hitems⟩ := List.forall_mem_cons.mp h
      rw [laxItems?, hitem, ih hitems, Option.or_none]

theorem laxMembers?_eq_none {members : List (Scanned Text × SourceTree)}
    (h : ∀ member ∈ members, member.1.lax = none ∧ member.2.laxFault? = none) :
    laxMembers? members = none := by
  induction members with
  | nil => rfl
  | cons member members ih =>
      obtain ⟨⟨hkey, hvalue⟩, hmembers⟩ := List.forall_mem_cons.mp h
      rw [laxMembers?, hkey, hvalue, ih hmembers, Option.or_none, Option.or_none]

theorem laxFault?_tree (json : Json) : json.tree.laxFault? = none := by
  induction json using Json.induction with
  | null | bool | number | string => rfl
  | array items ih =>
      rw [tree_array, laxFault?, laxItems?_eq_none (List.forall_mem_map.mpr ih)]
      rfl
  | object members ih =>
      have hmembers : laxMembers?
          (members.map fun member => (Scanned.clean member.1, member.2.tree)) = none :=
        laxMembers?_eq_none (List.forall_mem_map.mpr fun member hmember => ⟨rfl, ih member hmember⟩)
      rw [tree_object, laxFault?, hmembers]
      rfl

end SourceTree

end Stylesheet.Json
