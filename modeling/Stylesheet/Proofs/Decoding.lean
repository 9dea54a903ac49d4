import Mathlib.Data.List.Basic
import Stylesheet.Json.Decoder
import Stylesheet.Proofs.JsonTrees

/-!
# Decoding the trees of values

A decoder recovers what a value was made from if it decodes the tree of the value, and fails at the
limit of open brackets when the value is deeper than that. The decoders of lists and records recover
if those of their items and fields do, and the limit falls on one level less for each bracket.
-/

namespace Stylesheet.Json

variable {α β σ τ : Type}

/-- A value, unless the brackets are deeper than allowed. -/
def limited (allowed : Prop) [Decidable allowed] (value : α) : Except Fault α :=
  if allowed then .ok value else .error .recursionLimit

section Limited

variable {p q : Prop} [Decidable p] [Decidable q] {value : α}

theorem limited_congr (h : p ↔ q) : limited p value = limited q value :=
  if_congr h rfl rfl

theorem limited_bind {f : α → Except Fault β} {result : β} (h : f value = limited q result) :
    (limited p value).bind f = limited (p ∧ q) result := by
  by_cases hp : p
  · rw [limited, if_pos hp]
    exact h.trans (limited_congr (by simp only [hp, true_and]))
  · rw [limited, if_neg hp, limited, if_neg fun hall => hp hall.1]
    rfl

theorem limited_bind_ok {f : α → Except Fault β} {result : β} (h : f value = .ok result) :
    (limited p value).bind f = limited p result := by
  by_cases hp : p
  · rw [limited, limited, if_pos hp, if_pos hp]
    exact h
  · rw [limited, limited, if_neg hp, if_neg hp]
    rfl

theorem limited_map (f : α → β) : (limited p value).map f = limited p (f value) := by
  by_cases hp : p
  · rw [limited, limited, if_pos hp, if_pos hp]
    rfl
  · rw [limited, limited, if_neg hp, if_neg hp]
    rfl

end Limited

/-- The value is recovered from its JSON value, which may be `levels` brackets deep. -/
def Recovers (decode : SourceTree → Except Fault α) (levels : Nat) (json : Json) (value : α) :
    Prop :=
  decode json.tree = limited (json.depth ≤ levels) value

theorem Recovers.eq_ok {decode : SourceTree → Except Fault α} {levels : Nat} {json : Json}
    {value : α} (h : Recovers decode levels json value) (hdepth : json.depth ≤ levels) :
    decode json.tree = .ok value :=
  h.trans (if_pos hdepth)

namespace Decoder

theorem recovers_text (levels : Nat) (value : Text) :
    Recovers (text levels) levels (.string value) value := by
  have hdepth : depth (.string value) ≤ levels := Nat.zero_le levels
  rw [Recovers, limited, if_pos hdepth]
  rfl

theorem recovers_count (levels : Nat) (value : Nat) :
    Recovers (count levels) levels (.number value) value := by
  have hdepth : depth (.number value) ≤ levels := Nat.zero_le levels
  have hsign : ¬(value : Int) < 0 := by omega
  rw [Recovers, limited, if_pos hdepth]
  calc
    count levels (tree (.number value)) =
        if (value : Int) < 0 then .error (.negativeCount value) else .ok (value : Int).toNat := rfl
    _ = .ok value := by rw [if_neg hsign, Int.toNat_natCast]

theorem orNull_eq {decode : Decoder α} {levels : Nat} {json : Json} (hdepth : 0 < json.depth) :
    orNull decode levels json.tree = (decode levels json.tree).map some := by
  cases json with
  | null => exact absurd hdepth (Nat.lt_irrefl 0)
  | bool | number | string => rfl
  | array items => rw [tree_array, orNull]; exact fun h => nomatch h
  | object members => rw [tree_object, orNull]; exact fun h => nomatch h

theorem recovers_orNull {decode : Decoder α} {levels : Nat} {toJson : α → Json} {value : Option α}
    (h : ∀ content ∈ value, 0 < (toJson content).depth ∧
      Recovers (decode levels) levels (toJson content) content) :
    Recovers (orNull decode levels) levels (Json.orNull toJson value) value := by
  cases value with
  | none =>
      have hdepth : depth .null ≤ levels := Nat.zero_le levels
      rw [Recovers, Json.orNull, limited, if_pos hdepth]
      rfl
  | some content =>
      obtain ⟨hdepth, hcontent⟩ := h content rfl
      rw [Recovers, Json.orNull, orNull_eq hdepth, hcontent, limited_map]

theorem mapM_tree {decode : SourceTree → Except Fault α} {levels : Nat} {toJson : α → Json}
    {values : List α} (h : ∀ value ∈ values, Recovers decode levels (toJson value) value) :
    ((values.map toJson).map tree).mapM decode =
      limited (∀ json ∈ values.map toJson, json.depth ≤ levels) values := by
  induction values with
  | nil => simp [limited, pure, Except.pure]
  | cons value values ih =>
      obtain ⟨hvalue, hvalues⟩ := List.forall_mem_cons.mp h
      rw [List.map_cons, List.map_cons, List.mapM_cons, hvalue, ih hvalues]
      simp only [List.forall_mem_cons]
      exact limited_bind (limited_map _)

theorem recovers_list {decode : Decoder α} {levels : Nat} {toJson : α → Json} {values : List α}
    (h : ∀ below, levels = below + 1 → ∀ value ∈ values,
      Recovers (decode below) below (toJson value) value) :
    Recovers (list decode levels) levels (Json.list toJson values) values := by
  rw [Recovers, Json.list, tree_array]
  cases levels with
  | zero => rw [limited, if_neg (Nat.not_le.mpr (depth_array_pos _)), list]
  | succ below =>
      rw [list, mapM_tree (h below rfl), limited_congr depth_array_le_succ]
      exact limited_bind_ok rfl

end Decoder

/-- A field that reads a value, and what the draft of the record is after it. -/
structure Entry (σ : Type) where
  field : FieldReader σ
  json : Json
  set : σ → σ

namespace Entry

def member (entry : Entry σ) : Text × Json :=
  (entry.field.key, entry.json)

def Recovers (levels : Nat) (entry : Entry σ) : Prop :=
  ∀ draft, entry.field.read levels entry.json.tree draft =
    limited (entry.json.depth ≤ levels) (entry.set draft)

/-- The draft of a record after all of its fields. -/
def fill (entries : List (Entry σ)) (draft : σ) : σ :=
  entries.foldl (fun draft entry => entry.set draft) draft

/-- An entry of a larger record. -/
def within (get : τ → σ) (set : σ → τ → τ) (entry : Entry σ) : Entry τ :=
  ⟨entry.field.within get set, entry.json, fun draft => set (entry.set (get draft)) draft⟩

theorem Recovers.within {levels : Nat} {entry : Entry σ} (h : entry.Recovers levels)
    (get : τ → σ) (set : σ → τ → τ) : (entry.within get set).Recovers levels := by
  intro draft
  change (entry.field.read levels entry.json.tree (get draft)).map (set · draft) = _
  rw [h (get draft), limited_map]
  rfl

theorem map_field_within (entries : List (Entry σ)) (get : τ → σ) (set : σ → τ → τ) :
    (entries.map (within get set)).map field =
      (entries.map field).map (FieldReader.within get set) := by
  rw [List.map_map, List.map_map]
  rfl

theorem fill_append (entries others : List (Entry σ)) (draft : σ) :
    fill (entries ++ others) draft = fill others (fill entries draft) :=
  List.foldl_append

theorem fill_first (entries : List (Entry σ)) (draft : σ × τ) :
    fill (entries.map (within Prod.fst fun part draft => (part, draft.2))) draft =
      (fill entries draft.1, draft.2) := by
  induction entries generalizing draft with
  | nil => rfl
  | cons entry entries ih => exact ih (entry.set draft.1, draft.2)

theorem fill_second (entries : List (Entry τ)) (draft : σ × τ) :
    fill (entries.map (within Prod.snd fun part draft => (draft.1, part))) draft =
      (draft.1, fill entries draft.2) := by
  induction entries generalizing draft with
  | nil => rfl
  | cons entry entries ih => exact ih (draft.1, entry.set draft.2)

end Entry

namespace Schema

theorem find?_key {fields : List (FieldReader σ)} (hkeys : (fields.map FieldReader.key).Nodup)
    {field : FieldReader σ} (hfield : field ∈ fields) :
    fields.find? (·.key = field.key) = some field := by
  induction fields with
  | nil => exact absurd hfield List.not_mem_nil
  | cons first fields ih =>
      rw [List.map_cons, List.nodup_cons] at hkeys
      rcases List.mem_cons.mp hfield with rfl | hfield
      · exact List.find?_cons_of_pos (by simp)
      · have hne : first.key ≠ field.key := fun heq =>
          hkeys.1 (heq ▸ List.mem_map_of_mem hfield)
        rw [List.find?_cons_of_neg (by simp [hne]), ih hkeys.2 hfield]

theorem readMembers_cons {fields : List (FieldReader σ)} {field : FieldReader σ} {key : Text}
    {seen : List Text} (hfind : fields.find? (·.key = key) = some field) (hfresh : key ∉ seen)
    (levels : Nat) (draft : σ) (tree : SourceTree) (members : List (Scanned Text × SourceTree)) :
    readMembers fields levels seen draft ((.clean key, tree) :: members) =
      (field.read levels tree draft).bind fun draft =>
        readMembers fields levels (key :: seen) draft members := by
  rw [readMembers]
  simp only [Scanned.clean, bind, Except.bind, hfind, if_neg hfresh]

theorem readMembers_skip {fields : List (FieldReader σ)} {key : Text}
    (hfind : fields.find? (·.key = key) = none) (levels : Nat) (seen : List Text) (draft : σ)
    (json : Json) (members : List (Scanned Text × SourceTree)) :
    readMembers fields levels seen draft ((.clean key, json.tree) :: members) =
      readMembers fields levels seen draft members := by
  rw [readMembers]
  simp only [Scanned.clean, bind, Except.bind, hfind, SourceTree.laxFault?_tree, raise?]

theorem readMembers_entries {fields : List (FieldReader σ)}
    (hkeys : (fields.map FieldReader.key).Nodup) {levels : Nat} {entries : List (Entry σ)}
    (hfields : ∀ entry ∈ entries, entry.field ∈ fields)
    (hentries : ∀ entry ∈ entries, entry.Recovers levels)
    (hnodup : (entries.map (·.field.key)).Nodup) {seen : List Text}
    (hseen : ∀ entry ∈ entries, entry.field.key ∉ seen) (draft : σ) :
    readMembers fields levels seen draft
        ((entries.map Entry.member).map fun member => (.clean member.1, member.2.tree)) =
      limited (∀ member ∈ entries.map Entry.member, member.2.depth ≤ levels)
        (Entry.fill entries draft) := by
  induction entries generalizing seen draft with
  | nil => simp [readMembers, limited, Entry.fill]
  | cons entry entries ih =>
      obtain ⟨hfield, hfields⟩ := List.forall_mem_cons.mp hfields
      obtain ⟨hentry, hentries⟩ := List.forall_mem_cons.mp hentries
      obtain ⟨hfresh, hseen⟩ := List.forall_mem_cons.mp hseen
      rw [List.map_cons, List.nodup_cons] at hnodup
      have hlater : ∀ other ∈ entries, other.field.key ∉ entry.field.key :: seen := by
        intro other hother hmem
        rcases List.mem_cons.mp hmem with heq | hmem
        · exact hnodup.1 (heq ▸ List.mem_map.mpr ⟨other, hother, rfl⟩)
        · exact hseen other hother hmem
      have hrest := ih hfields hentries hnodup.2 hlater (entry.set draft)
      rw [List.map_cons, List.map_cons]
      simp only [List.forall_mem_cons]
      rw [Entry.member, readMembers_cons (find?_key hkeys hfield) hfresh, hentry draft]
      exact limited_bind hrest

/-- The members of an object are written for some of the fields of a record, in their order, and
leave a draft of the value. -/
def Recovers (schema : Schema σ α) (levels : Nat) (members : List (Text × Json)) (value : α) :
    Prop :=
  ∃ entries : List (Entry σ), (entries.map Entry.field).Sublist schema.fields ∧
    (∀ entry ∈ entries, entry.Recovers levels) ∧ members = entries.map Entry.member ∧
    schema.finish (Entry.fill entries schema.start) = .ok value

theorem recovers_decode {schema : Schema σ α} {name : Text} {levels : Nat}
    {members : List (Text × Json)} {value : α}
    (hkeys : (schema.fields.map FieldReader.key).Nodup)
    (h : ∀ below, levels = below + 1 → schema.Recovers below members value) :
    Json.Recovers (schema.decode name levels) levels (.object members) value := by
  rw [Json.Recovers, tree_object]
  cases levels with
  | zero => rw [limited, if_neg (Nat.not_le.mpr (depth_object_pos _)), decode]
  | succ below =>
      obtain ⟨entries, hfields, hentries, rfl, hfinish⟩ := h below rfl
      have hmem : ∀ entry ∈ entries, entry.field ∈ schema.fields := fun entry hentry =>
        hfields.subset (List.mem_map_of_mem hentry)
      have hnodup : (entries.map (·.field.key)).Nodup := by
        have hsub := hkeys.sublist (hfields.map FieldReader.key)
        rwa [List.map_map] at hsub
      have hseen : ∀ entry ∈ entries, entry.field.key ∉ ([] : List Text) :=
        fun entry hentry => List.not_mem_nil
      have hread := readMembers_entries hkeys hmem hentries hnodup hseen schema.start
      rw [decode, hread, limited_congr depth_object_le_succ]
      exact limited_bind_ok hfinish

theorem recovers_one {key : Text} {decode : Decoder α} {levels : Nat} {json : Json} {value : α}
    (h : Json.Recovers (decode levels) levels json value) :
    (one key decode).Recovers levels [(key, json)] value := by
  refine ⟨[⟨field key decode fun value _ => some value, json, fun _ => some value⟩],
    List.Sublist.refl _, ?_, rfl, rfl⟩
  rw [List.forall_mem_singleton]
  intro draft
  change (decode levels json.tree).map _ = _
  rw [h, limited_map]

theorem recovers_oneOrNull {key : Text} {decode : Decoder α} {levels : Nat} {json : Json}
    {value : Option α} (h : Json.Recovers (Decoder.orNull decode levels) levels json value) :
    (oneOrNull key decode).Recovers levels [(key, json)] value := by
  refine ⟨[⟨field key (Decoder.orNull decode) fun value _ => value, json, fun _ => value⟩],
    List.Sublist.refl _, ?_, rfl, rfl⟩
  rw [List.forall_mem_singleton]
  intro draft
  change (Decoder.orNull decode levels json.tree).map _ = _
  rw [h, limited_map]

theorem Recovers.both {first : Schema σ α} {second : Schema τ β} {levels : Nat}
    {members others : List (Text × Json)} {value : α} {other : β}
    (hfirst : first.Recovers levels members value) (hsecond : second.Recovers levels others other) :
    (Schema.both first second).Recovers levels (members ++ others) (value, other) := by
  obtain ⟨entries, hfields, hentries, rfl, hfinish⟩ := hfirst
  obtain ⟨others, hothers, hrecovers, rfl, hdone⟩ := hsecond
  refine ⟨entries.map (Entry.within Prod.fst fun part draft => (part, draft.2)) ++
    others.map (Entry.within Prod.snd fun part draft => (draft.1, part)), ?_, ?_, ?_, ?_⟩
  · rw [List.map_append, Entry.map_field_within, Entry.map_field_within]
    exact (hfields.map _).append (hothers.map _)
  · intro entry hentry
    rcases List.mem_append.mp hentry with hentry | hentry
    · obtain ⟨part, hpart, rfl⟩ := List.mem_map.mp hentry
      exact (hentries part hpart).within _ _
    · obtain ⟨part, hpart, rfl⟩ := List.mem_map.mp hentry
      exact (hrecovers part hpart).within _ _
  · rw [List.map_append, List.map_map, List.map_map]
    rfl
  · rw [Entry.fill_append, Entry.fill_first, Entry.fill_second]
    change (first.finish (Entry.fill entries first.start)).bind (fun part =>
      (second.finish (Entry.fill others second.start)).bind fun other => .ok (part, other)) = _
    rw [hfinish, hdone]
    rfl

theorem Recovers.map {schema : Schema σ α} {levels : Nat} {members : List (Text × Json)}
    {value : α} (h : schema.Recovers levels members value) (f : α → β) :
    (schema.map f).Recovers levels members (f value) := by
  obtain ⟨entries, hfields, hentries, hmembers, hfinish⟩ := h
  refine ⟨entries, hfields, hentries, hmembers, ?_⟩
  change (schema.finish (Entry.fill entries schema.start)).map f = _
  rw [hfinish]
  rfl

end Schema

end Stylesheet.Json
