import Mathlib.Algebra.Group.Int.Defs
import Mathlib.Algebra.Group.Nat.Defs
import Mathlib.Data.List.Basic
import Stylesheet.Json.Decoder
import Stylesheet.Proofs.JsonTrees

/-!
# What decoders return

A decoder that may open some number of brackets returns values that are written with no more of
them, and the integers in the tree of a text have 64 bits. So what reading back depends on holds of
whatever was decoded, in whichever form a record was given.
-/

namespace Stylesheet.Json

variable {α β σ τ : Type}

/-! ### Results of readings -/

theorem bind_eq_ok {result : Except Fault α} {next : α → Except Fault β} {value : β}
    (h : result.bind next = .ok value) : ∃ first, result = .ok first ∧ next first = .ok value := by
  cases result with
  | error fault => cases h
  | ok first => exact ⟨first, rfl, h⟩

theorem map_eq_ok {result : Except Fault α} {f : α → β} {value : β}
    (h : result.map f = .ok value) : ∃ first, result = .ok first ∧ f first = value := by
  cases result with
  | error fault => cases h
  | ok first => exact ⟨first, rfl, Except.ok.inj h⟩

theorem mem_of_mapM_eq_ok {read : β → Except Fault α} {items : List β} {values : List α}
    (h : items.mapM read = .ok values) : ∀ value ∈ values, ∃ item ∈ items, read item = .ok value := by
  induction items generalizing values with
  | nil =>
      obtain rfl : [] = values := Except.ok.inj h
      exact fun value hvalue => absurd hvalue List.not_mem_nil
  | cons item items ih =>
      rw [List.mapM_cons] at h
      obtain ⟨first, hfirst, h⟩ := bind_eq_ok h
      obtain ⟨others, hothers, h⟩ := bind_eq_ok h
      obtain rfl : first :: others = values := Except.ok.inj h
      intro value hvalue
      rcases List.mem_cons.mp hvalue with rfl | hvalue
      · exact ⟨item, List.mem_cons_self, hfirst⟩
      · obtain ⟨other, hother, hread⟩ := ih hothers value hvalue
        exact ⟨other, List.mem_cons_of_mem item hother, hread⟩

/-! ### Trees of texts -/

namespace Numeral

theorem float_ne_integer (numeral : Numeral) (value : Int) :
    numeral.float ≠ .ok (.integer value) := by
  intro h
  unfold float at h
  dsimp only at h
  split at h <;> cases h

/-- A numeral that stays an integer has 64 bits. -/
theorem lt_of_value_eq {numeral : Numeral} {value : Int}
    (h : numeral.value = .ok (.integer value)) : value < 2 ^ 64 := by
  have hlimit : (limit : Int) = 2 ^ 64 := by decide
  unfold Numeral.value at h
  dsimp only at h
  split at h
  · exact absurd h (float_ne_integer numeral value)
  split at h
  · split at h
    · cases h
      omega
    · exact absurd h (float_ne_integer numeral value)
  split at h
  · cases h
    omega
  · exact absurd h (float_ne_integer numeral value)

end Numeral

namespace SourceTree

/-- A tree whose integers have 64 bits. -/
inductive Bounded : SourceTree → Prop
  | null : Bounded .null
  | bool (value : Bool) : Bounded (.bool value)
  | number (scanned : Scanned Number)
      (lt : ∀ value, scanned.value = .ok (.integer value) → value < 2 ^ 64) :
      Bounded (.number scanned)
  | string (scanned : Scanned Text) : Bounded (.string scanned)
  | array (items : List SourceTree) (ending : Ending) (mem : ∀ item ∈ items, Bounded item) :
      Bounded (.array items ending)
  | object (members : List (Scanned Text × SourceTree)) (ending : Ending)
      (mem : ∀ member ∈ members, Bounded member.2) : Bounded (.object members ending)
  | bad (fault : Fault) : Bounded (.bad fault)

section Brackets

variable {good : α → Prop} {close : Char} {begins : Char → Bool} {read : Text → α × Option Text}

theorem forall_mem_readItems (hread : ∀ text, good (read text).1) (most : Nat) (text : Text) :
    ∀ item ∈ (readItems close begins read most text).1, good item := by
  induction most generalizing text with
  | zero => exact fun item hitem => absurd hitem List.not_mem_nil
  | succ most ih =>
      have hfirst := hread text
      have hone : ∀ item ∈ [(read text).1], good item := List.forall_mem_singleton.mpr hfirst
      unfold readItems
      split
      next heq => rwa [heq] at hone
      next item rest heq =>
        rw [heq] at hone hfirst
        split
        · exact hone
        split
        · exact hone
        split
        · exact hone
        split
        · exact hone
        split
        · exact hone
        split
        · exact List.forall_mem_cons.mpr ⟨hfirst, ih _⟩
        · exact hone

theorem forall_mem_readBracket (hread : ∀ text, good (read text).1) (text : Text) :
    ∀ item ∈ (readBracket close begins read text).1, good item := by
  have hnone : ∀ item ∈ ([] : List α), good item := fun item hitem => absurd hitem List.not_mem_nil
  unfold readBracket
  split
  · exact hnone
  split
  · exact hnone
  split
  · exact forall_mem_readItems hread _ _
  · exact hnone

end Brackets

theorem bounded_readWord {tree : SourceTree} (htree : tree.Bounded) (word text : Text) :
    (readWord tree word text).1.Bounded := by
  unfold readWord
  split
  · exact htree
  · exact .bad _

theorem bounded_readNumber (text : Text) : (readNumber text).1.Bounded := by
  unfold readNumber
  split
  · exact .number _ fun value hvalue => Numeral.lt_of_value_eq hvalue
  · exact .number _ fun value hvalue => nomatch hvalue

theorem bounded_readMember {read : Text → SourceTree × Option Text}
    (hread : ∀ text, (read text).1.Bounded) (text : Text) : (readMember read text).1.2.Bounded := by
  unfold readMember
  dsimp only
  split
  · exact .null
  split
  · exact .bad _
  split
  · exact hread _
  · exact .bad _

theorem bounded_readWithin (depth : Nat) (text : Text) : (readWithin depth text).1.Bounded := by
  induction depth generalizing text with
  | zero => exact .bad _
  | succ depth ih =>
      unfold readWithin
      split
      · exact .bad _
      · exact .array _ _ (forall_mem_readBracket ih _)
      · next rest _ =>
          have hmembers : ∀ member ∈ (readBracket '}' (· = '"') (readMember (readWithin depth))
              rest).1, member.2.Bounded :=
            forall_mem_readBracket (bounded_readMember ih) rest
          exact .object _ _ hmembers
      · exact .string _
      · exact bounded_readWord .null _ _
      · exact bounded_readWord (.bool true) _ _
      · exact bounded_readWord (.bool false) _ _
      · split
        · exact bounded_readNumber _
        · exact .bad _

/-- Whatever a text is, the integers of its tree have 64 bits. -/
theorem bounded_read (text : Text) : (read text).1.Bounded :=
  bounded_readWithin _ _

end SourceTree

/-! ### Values that can be read back -/

/-- A value that reads back: its brackets are at most `levels` deep, and its numbers have 64 bits. -/
structure Fits (levels : Nat) (json : Json) : Prop where
  depth_le : json.depth ≤ levels
  numbers_lt : ∀ value ∈ json.numbers, value < 2 ^ 64

variable {levels : Nat}

theorem fits_null : Fits levels .null :=
  ⟨Nat.zero_le _, fun _ hvalue => absurd hvalue List.not_mem_nil⟩

theorem fits_string (text : Text) : Fits levels (.string text) :=
  ⟨Nat.zero_le _, fun _ hvalue => absurd hvalue List.not_mem_nil⟩

theorem fits_number {value : Nat} (h : value < 2 ^ 64) : Fits levels (.number value) :=
  ⟨Nat.zero_le _, List.forall_mem_singleton.mpr h⟩

theorem fits_array {items : List Json} (h : ∀ item ∈ items, item.Fits levels) :
    Fits (levels + 1) (.array items) where
  depth_le := depth_array_le_succ.mpr fun item hitem => (h item hitem).depth_le
  numbers_lt value hvalue := by
    rw [numbers_array] at hvalue
    obtain ⟨item, hitem, hvalue⟩ := List.mem_flatMap.mp hvalue
    exact (h item hitem).numbers_lt value hvalue

theorem fits_object {members : List (Text × Json)} (h : ∀ member ∈ members, member.2.Fits levels) :
    Fits (levels + 1) (.object members) where
  depth_le := depth_object_le_succ.mpr fun member hmember => (h member hmember).depth_le
  numbers_lt value hvalue := by
    rw [numbers_object] at hvalue
    obtain ⟨member, hmember, hvalue⟩ := List.mem_flatMap.mp hvalue
    exact (h member hmember).numbers_lt value hvalue

/-- What is decoded of the tree of a text can be written within `levels` brackets. -/
def Confined (decode : SourceTree → Except Fault α) (levels : Nat) (toJson : α → Json) : Prop :=
  ∀ tree value, tree.Bounded → decode tree = .ok value → (toJson value).Fits levels

namespace Decoder

theorem mismatch_ne_ok (expected : Expected) (tree : SourceTree) (value : α) :
    mismatch expected tree ≠ .ok value := by
  intro h
  cases tree with
  | number scanned =>
      obtain ⟨number, -, h⟩ := bind_eq_ok h
      cases h
  | string scanned =>
      obtain ⟨text, -, h⟩ := bind_eq_ok h
      cases h
  | _ => cases h

theorem confined_text (levels : Nat) : Confined (text levels) levels .string :=
  fun _ value _ _ => fits_string value

theorem confined_count (levels : Nat) : Confined (count levels) levels .number := by
  intro tree value htree h
  unfold count at h
  split at h
  next scanned =>
    obtain ⟨number, hnumber, h⟩ := bind_eq_ok h
    split at h
    next integer =>
      split at h
      · cases h
      · cases htree with
        | number _ hlt =>
            have hinteger := hlt integer hnumber
            obtain rfl : integer.toNat = value := Except.ok.inj h
            exact fits_number (by omega)
    next => cases h
  next => exact absurd h (mismatch_ne_ok _ _ _)

theorem confined_orNull {decode : Decoder α} {toJson : α → Json}
    (h : Confined (decode levels) levels toJson) :
    Confined (orNull decode levels) levels (Json.orNull toJson) := by
  intro tree value htree hvalue
  unfold orNull at hvalue
  split at hvalue
  · cases hvalue
    exact fits_null
  · obtain ⟨content, hcontent, rfl⟩ := map_eq_ok hvalue
    exact h tree content htree hcontent

theorem confined_list {decode : Decoder α} {toJson : α → Json}
    (h : ∀ below, levels = below + 1 → Confined (decode below) below toJson) :
    Confined (list decode levels) levels (Json.list toJson) := by
  intro tree values htree hvalues
  unfold list at hvalues
  split at hvalues
  · cases hvalues
  · next below items ending =>
      obtain ⟨read, hread, hvalues⟩ := bind_eq_ok hvalues
      obtain ⟨-, -, hvalues⟩ := bind_eq_ok hvalues
      obtain rfl : read = values := Except.ok.inj hvalues
      refine fits_array (List.forall_mem_map.mpr fun value hvalue => ?_)
      obtain ⟨item, hitem, hdecode⟩ := mem_of_mapM_eq_ok hread value hvalue
      cases htree with
      | array _ _ hitems => exact h below rfl item value (hitems item hitem) hdecode
  · exact absurd hvalues (mismatch_ne_ok _ _ _)

end Decoder

/-- Reading a field keeps what is known of the draft. -/
def FieldReader.Keeps (levels : Nat) (good : σ → Prop) (field : FieldReader σ) : Prop :=
  ∀ tree draft next, tree.Bounded → good draft → field.read levels tree draft = .ok next → good next

theorem FieldReader.Keeps.within {good : σ → Prop} {field : FieldReader σ}
    (h : field.Keeps levels good) {get : τ → σ} {set : σ → τ → τ} {larger : τ → Prop}
    (hget : ∀ draft, larger draft → good (get draft))
    (hset : ∀ part draft, good part → larger draft → larger (set part draft)) :
    (field.within get set).Keeps levels larger := by
  intro tree draft next htree hdraft hread
  obtain ⟨part, hpart, rfl⟩ := map_eq_ok hread
  exact hset part draft (h tree (get draft) part htree (hget draft hdraft) hpart) hdraft

namespace Schema

section Run

variable {good : σ → Prop} {fields : List (FieldReader σ)}

theorem readMembers_keeps (hfields : ∀ field ∈ fields, field.Keeps levels good)
    {members : List (Scanned Text × SourceTree)} (hmembers : ∀ member ∈ members, member.2.Bounded)
    {seen : List Text} {draft result : σ} (hdraft : good draft)
    (h : readMembers fields levels seen draft members = .ok result) : good result := by
  induction members generalizing seen draft with
  | nil =>
      obtain rfl : draft = result := Except.ok.inj h
      exact hdraft
  | cons member members ih =>
      obtain ⟨hmember, hmembers⟩ := List.forall_mem_cons.mp hmembers
      rw [readMembers] at h
      obtain ⟨key, -, h⟩ := bind_eq_ok h
      split at h
      · obtain ⟨-, -, h⟩ := bind_eq_ok h
        exact ih hmembers hdraft h
      · next field hfind =>
          split at h
          · cases h
          · obtain ⟨next, hread, h⟩ := bind_eq_ok h
            have hfield := hfields field (List.mem_of_find?_eq_some hfind)
            exact ih hmembers (hfield _ draft next hmember hdraft hread) h

theorem readItems_keeps {missing : Option Fault} {ending : Ending}
    (hfields : ∀ field ∈ fields, field.Keeps levels good) {items : List SourceTree}
    (hitems : ∀ item ∈ items, item.Bounded) {draft result : σ} (hdraft : good draft)
    (h : readItems levels missing ending fields draft items = .ok result) : good result := by
  induction fields generalizing draft items with
  | nil =>
      cases items with
      | nil =>
          obtain ⟨-, -, h⟩ := bind_eq_ok h
          obtain rfl : draft = result := Except.ok.inj h
          exact hdraft
      | cons item items => cases h
  | cons field fields ih =>
      cases items with
      | nil =>
          obtain ⟨-, -, h⟩ := bind_eq_ok h
          obtain rfl : draft = result := Except.ok.inj h
          exact hdraft
      | cons item items =>
          obtain ⟨hfield, hfields⟩ := List.forall_mem_cons.mp hfields
          obtain ⟨hitem, hitems⟩ := List.forall_mem_cons.mp hitems
          rw [readItems] at h
          obtain ⟨next, hread, h⟩ := bind_eq_ok h
          exact ih hfields hitems (hfield item draft next hitem hdraft hread) h

end Run

/-- Something that is known of the drafts of a record through all of its fields, and in the end
bounds the members that are written for the value. -/
structure Invariant (schema : Schema σ α) (levels : Nat) (members : α → List (Text × Json))
    (good : σ → Prop) : Prop where
  start : good schema.start
  keeps : ∀ field ∈ schema.fields, field.Keeps levels good
  finish : ∀ draft value, good draft → schema.finish draft = .ok value →
    ∀ member ∈ members value, member.2.Fits levels

/-- The members written for what is decoded of a record fit into `levels` brackets each. -/
def Confined (schema : Schema σ α) (levels : Nat) (members : α → List (Text × Json)) : Prop :=
  ∃ good : σ → Prop, schema.Invariant levels members good

theorem confined_decode {schema : Schema σ α} {name : Text} {members : α → List (Text × Json)}
    (h : ∀ below, levels = below + 1 → schema.Confined below members) :
    Json.Confined (schema.decode name levels) levels fun value => .object (members value) := by
  intro tree value htree hvalue
  unfold decode at hvalue
  split at hvalue
  · cases hvalue
  · cases hvalue
  · next below object ending =>
      obtain ⟨good, hgood⟩ := h below rfl
      obtain ⟨draft, hdraft, hvalue⟩ := bind_eq_ok hvalue
      obtain ⟨-, -, hvalue⟩ := bind_eq_ok hvalue
      cases htree with
      | object _ _ hobject =>
          have hread := readMembers_keeps hgood.keeps hobject hgood.start hdraft
          exact fits_object (hgood.finish draft value hread hvalue)
  · next below items ending =>
      obtain ⟨good, hgood⟩ := h below rfl
      obtain ⟨draft, hdraft, hvalue⟩ := bind_eq_ok hvalue
      cases htree with
      | array _ _ hitems =>
          have hread := readItems_keeps hgood.keeps hitems hgood.start hdraft
          exact fits_object (hgood.finish draft value hread hvalue)
  · exact absurd hvalue (Decoder.mismatch_ne_ok _ _ _)

theorem keeps_field {key : Text} {decode : Decoder α} {set : α → σ → σ} {toJson : α → Json}
    {good : σ → Prop} (hdecode : Json.Confined (decode levels) levels toJson)
    (hset : ∀ value draft, (toJson value).Fits levels → good draft → good (set value draft)) :
    (field key decode set).Keeps levels good := by
  intro tree draft next htree hdraft hread
  obtain ⟨value, hvalue, rfl⟩ := map_eq_ok hread
  exact hset value draft (hdecode tree value htree hvalue) hdraft

theorem confined_one {key : Text} {decode : Decoder α} {toJson : α → Json}
    (h : Json.Confined (decode levels) levels toJson) :
    (one key decode).Confined levels fun value => [(key, toJson value)] := by
  refine ⟨fun draft => ∀ value ∈ draft, (toJson value).Fits levels, ⟨?_, ?_, ?_⟩⟩
  · exact fun value hvalue => nomatch hvalue
  · refine List.forall_mem_singleton.mpr (keeps_field h ?_)
    rintro value draft hvalue - other ⟨⟩
    exact hvalue
  · intro draft value hdraft hfinish
    cases draft with
    | none => cases hfinish
    | some content =>
        obtain rfl : content = value := Except.ok.inj hfinish
        exact List.forall_mem_singleton.mpr (hdraft content rfl)

theorem confined_oneOrNull {key : Text} {decode : Decoder α} {toJson : α → Json}
    (h : Json.Confined (decode levels) levels toJson) :
    (oneOrNull key decode).Confined levels fun value => [(key, Json.orNull toJson value)] := by
  refine ⟨fun draft => (Json.orNull toJson draft).Fits levels, ⟨fits_null, ?_, ?_⟩⟩
  · exact List.forall_mem_singleton.mpr
      (keeps_field (Decoder.confined_orNull h) fun value draft hvalue _ => hvalue)
  · intro draft value hdraft hfinish
    obtain rfl : draft = value := Except.ok.inj hfinish
    exact List.forall_mem_singleton.mpr hdraft

theorem Confined.both {first : Schema σ α} {second : Schema τ β}
    {members : α → List (Text × Json)} {others : β → List (Text × Json)}
    (hfirst : first.Confined levels members) (hsecond : second.Confined levels others) :
    (Schema.both first second).Confined levels fun value => members value.1 ++ others value.2 := by
  obtain ⟨good, hgood⟩ := hfirst
  obtain ⟨fine, hfine⟩ := hsecond
  refine ⟨fun draft => good draft.1 ∧ fine draft.2, ⟨⟨hgood.start, hfine.start⟩, ?_, ?_⟩⟩
  · intro field hfield
    rcases List.mem_append.mp hfield with hfield | hfield
    · obtain ⟨part, hpart, rfl⟩ := List.mem_map.mp hfield
      exact (hgood.keeps part hpart).within (fun _ hdraft => hdraft.1)
        fun _ _ hset hdraft => ⟨hset, hdraft.2⟩
    · obtain ⟨part, hpart, rfl⟩ := List.mem_map.mp hfield
      exact (hfine.keeps part hpart).within (fun _ hdraft => hdraft.2)
        fun _ _ hset hdraft => ⟨hdraft.1, hset⟩
  · intro draft value hdraft hfinish
    obtain ⟨part, hpart, hfinish⟩ := bind_eq_ok hfinish
    obtain ⟨other, hother, hfinish⟩ := bind_eq_ok hfinish
    obtain rfl : (part, other) = value := Except.ok.inj hfinish
    exact List.forall_mem_append.mpr ⟨hgood.finish draft.1 part hdraft.1 hpart,
      hfine.finish draft.2 other hdraft.2 hother⟩

theorem Confined.map {schema : Schema σ α} {f : α → β} {members : β → List (Text × Json)}
    (h : schema.Confined levels fun value => members (f value)) :
    (schema.map f).Confined levels members := by
  obtain ⟨good, hgood⟩ := h
  refine ⟨good, ⟨hgood.start, hgood.keeps, fun draft value hdraft hfinish => ?_⟩⟩
  obtain ⟨content, hcontent, rfl⟩ := map_eq_ok hfinish
  exact hgood.finish draft content hdraft hcontent

end Schema

/-- Bounds on what a decoder returns for a whole text. -/
theorem Decoder.fits_of_run {decode : Decoder α} {toJson : α → Json}
    (hdecode : Confined (decode 127) 127 toJson) {text : Text} {value : α}
    (h : decode.run text = .ok value) : (toJson value).Fits 127 := by
  have hbounded := SourceTree.bounded_read text
  rw [run] at h
  generalize SourceTree.read text = read at h hbounded
  obtain ⟨tree, rest⟩ := read
  obtain ⟨result, hresult, h⟩ := bind_eq_ok h
  split at h
  · obtain rfl : result = value := Except.ok.inj h
    exact hdecode tree result hbounded hresult
  · cases h

end Stylesheet.Json
