import Mathlib.Data.List.Basic
import Stylesheet.Proofs.JsonReading

/-!
# Nesting of written JSON

How deep the brackets of a text are, counted on the text alone; of a written value it is the depth
of the value.
-/

namespace Stylesheet.Json

/-- The most brackets open at once where `depth` are open already; brackets in string literals do
not count. -/
def nestingFrom : (quoted : Bool) → (depth : Nat) → Text → Nat
  | _, depth, [] => depth
  | true, depth, '\\' :: _ :: text => nestingFrom true depth text
  | true, depth, c :: text => nestingFrom (c ≠ '"') depth text
  | false, depth, c :: text =>
      if c = '"' then nestingFrom true depth text
      else if c = '[' || c = '{' then nestingFrom false (depth + 1) text
      else if c = ']' || c = '}' then max depth (nestingFrom false (depth - 1) text)
      else nestingFrom false depth text

/-- How deep arrays and objects are nested in a text. -/
def nesting (text : Text) : Nat :=
  nestingFrom false 0 text

theorem le_nestingFrom (quoted : Bool) (depth : Nat) (text : Text) :
    depth ≤ nestingFrom quoted depth text := by
  fun_induction nestingFrom quoted depth text with
  | case1 => exact Nat.le_refl _
  | case5 depth c text _ _ ih => exact Nat.le_of_succ_le ih
  | case6 => exact Nat.le_max_left _ _
  | _ => assumption

def isPlain (c : Char) : Bool :=
  c ≠ '"' && c ≠ '[' && c ≠ '{' && c ≠ ']' && c ≠ '}'

theorem nestingFrom_plain {plain : Text} (hplain : ∀ c ∈ plain, isPlain c = true) (depth : Nat)
    (rest : Text) : nestingFrom false depth (plain ++ rest) = nestingFrom false depth rest := by
  induction plain with
  | nil => rfl
  | cons c plain ih =>
      obtain ⟨hc, hplain⟩ := List.forall_mem_cons.mp hplain
      simp only [isPlain, Bool.and_eq_true, decide_eq_true_iff] at hc
      obtain ⟨⟨⟨⟨hquote, hsquare⟩, hcurly⟩, hclose⟩, hend⟩ := hc
      rw [List.cons_append, nestingFrom]
      simp [hquote, hsquare, hcurly, hclose, hend, ih hplain]

theorem nestingFrom_verbatim {piece : Text} (h : ∀ c ∈ piece, Verbatim c) (depth : Nat)
    (rest : Text) : nestingFrom true depth (piece ++ rest) = nestingFrom true depth rest := by
  induction piece with
  | nil => rfl
  | cons c piece ih =>
      obtain ⟨hc, hpiece⟩ := List.forall_mem_cons.mp h
      rw [List.cons_append, nestingFrom]
      · simpa [hc.quote] using ih hpiece
      · simp [hc.backslash]

theorem nestingFrom_escape (c : Char) (depth : Nat) (text : Text) :
    nestingFrom true depth (escape c ++ text) = nestingFrom true depth text := by
  rcases escape_cases c with ⟨letter, digits, hescape, -, hdigits⟩ | ⟨hescape, hc⟩
  · rw [hescape, List.cons_append, List.cons_append, nestingFrom]
    exact nestingFrom_verbatim hdigits depth text
  · rw [hescape]
    exact nestingFrom_verbatim (List.forall_mem_singleton.mpr hc) depth text

theorem nestingFrom_quote (text : Text) (depth : Nat) (rest : Text) :
    nestingFrom false depth (quote text ++ rest) = nestingFrom false depth rest := by
  have hinside : nestingFrom true depth (text.flatMap escape ++ '"' :: rest) =
      nestingFrom false depth rest := by
    induction text with
    | nil => rfl
    | cons c text ih => rw [List.flatMap_cons, List.append_assoc, nestingFrom_escape, ih]
  rw [quote, List.append_assoc, List.cons_append, nestingFrom, if_pos rfl]
  exact hinside

theorem plain_of_gap {gap : Text} (hgap : SourceTree.Gap gap) : ∀ c ∈ gap, isPlain c = true := by
  intro c hc
  have hblank := hgap c hc
  simp only [SourceTree.isGap, Bool.or_eq_true, decide_eq_true_iff] at hblank
  rcases hblank with ((rfl | rfl) | rfl) | rfl <;> rfl

theorem plain_toDigits (value : Nat) : ∀ c ∈ Nat.toDigits 10 value, isPlain c = true := by
  intro c hc
  have hdigit : c.isDigit = true := Nat.isDigit_of_mem_toDigits (by omega) (by omega) hc
  have hne : ∀ d, d.isDigit = false → c ≠ d := by
    rintro d hd rfl
    exact absurd hdigit (by simp [hd])
  simp [isPlain, hne '"' rfl, hne '[' rfl, hne '{' rfl, hne ']' rfl, hne '}' rfl]

section Between

variable {β : Type} {close : Char} {gap lastGap : Text} {write : β → Text} {depthOf : β → Nat}

theorem nestingFrom_flatMap (hgap : SourceTree.Gap gap) {items : List β} {depth : Nat}
    (hitems : ∀ item ∈ items, ∀ rest, nestingFrom false depth (write item ++ rest) =
      max (depth + depthOf item) (nestingFrom false depth rest)) (rest : Text) :
    nestingFrom false depth (items.flatMap (fun item => ',' :: gap ++ write item) ++ rest) =
      max (depth + deepest (items.map depthOf)) (nestingFrom false depth rest) := by
  induction items with
  | nil => exact (Nat.max_eq_right (le_nestingFrom false depth rest)).symm
  | cons item items ih =>
      obtain ⟨hitem, hitems⟩ := List.forall_mem_cons.mp hitems
      have hcomma : ∀ c ∈ ',' :: gap, isPlain c = true :=
        List.forall_mem_cons.mpr ⟨rfl, plain_of_gap hgap⟩
      rw [List.flatMap_cons, List.append_assoc, List.append_assoc, nestingFrom_plain hcomma, hitem,
        ih hitems, List.map_cons, deepest_cons]
      omega

theorem nestingFrom_between (hclose : close = ']' ∨ close = '}') (hgap : SourceTree.Gap gap)
    (hlast : SourceTree.Gap lastGap) {items : List β} {depth : Nat}
    (hitems : ∀ item ∈ items, ∀ rest, nestingFrom false (depth + 1) (write item ++ rest) =
      max (depth + 1 + depthOf item) (nestingFrom false (depth + 1) rest)) (rest : Text) :
    nestingFrom false (depth + 1) (between close gap lastGap write items ++ rest) =
      max (depth + 1 + deepest (items.map depthOf)) (nestingFrom false depth rest) := by
  have hend : nestingFrom false (depth + 1) (close :: rest) =
      max (depth + 1) (nestingFrom false depth rest) := by
    rcases hclose with rfl | rfl <;> rfl
  cases items with
  | nil => exact hend
  | cons item items =>
      obtain ⟨hitem, hitems⟩ := List.forall_mem_cons.mp hitems
      have htext : between close gap lastGap write (item :: items) ++ rest =
          gap ++ (write item ++ (items.flatMap (fun item => ',' :: gap ++ write item) ++
            (lastGap ++ close :: rest))) := by
        simp only [between, List.append_assoc, List.singleton_append]
      rw [htext, nestingFrom_plain (plain_of_gap hgap), hitem, nestingFrom_flatMap hgap hitems,
        nestingFrom_plain (plain_of_gap hlast), hend, List.map_cons, deepest_cons]
      omega

end Between

theorem nestingFrom_scalar {text : Text} {depth : Nat} {rest : Text}
    (h : nestingFrom false depth (text ++ rest) = nestingFrom false depth rest) :
    nestingFrom false depth (text ++ rest) = max (depth + 0) (nestingFrom false depth rest) :=
  h.trans (Nat.max_eq_right (le_nestingFrom false depth rest)).symm

theorem nestingFrom_write (layout : Layout) (json : Json) :
    ∀ indent depth rest, nestingFrom false depth (write layout indent json ++ rest) =
      max (depth + json.depth) (nestingFrom false depth rest) := by
  induction json using Json.induction with
  | null =>
      have hplain : ∀ c ∈ "null".toList, isPlain c = true := List.all_eq_true.mp rfl
      exact fun _ depth rest => nestingFrom_scalar (nestingFrom_plain hplain depth rest)
  | bool value =>
      have htrue : ∀ c ∈ "true".toList, isPlain c = true := List.all_eq_true.mp rfl
      have hfalse : ∀ c ∈ "false".toList, isPlain c = true := List.all_eq_true.mp rfl
      intro indent depth rest
      cases value with
      | true => exact nestingFrom_scalar (nestingFrom_plain htrue depth rest)
      | false => exact nestingFrom_scalar (nestingFrom_plain hfalse depth rest)
  | number value =>
      intro indent depth rest
      rw [write_number]
      exact nestingFrom_scalar (nestingFrom_plain (plain_toDigits value) depth rest)
  | string text =>
      exact fun _ depth rest => nestingFrom_scalar (nestingFrom_quote text depth rest)
  | array items ih =>
      intro indent depth rest
      have hitems := nestingFrom_between (.inl rfl) (SourceTree.gap_newline layout (indent + 1))
        (SourceTree.gap_newline layout indent)
        (fun item hitem => ih item hitem (indent + 1) (depth + 1)) rest
      rw [write_array, List.cons_append, depth_array, ← Nat.add_assoc, Nat.add_right_comm]
      exact hitems
  | object members ih =>
      intro indent depth rest
      have hmember : ∀ member ∈ members, ∀ rest, nestingFrom false (depth + 1)
          (writeMember layout (indent + 1) member ++ rest) =
            max (depth + 1 + member.2.depth) (nestingFrom false (depth + 1) rest) := by
        intro member hmember rest
        have hcolon : ∀ c ∈ layout.colon, isPlain c = true := by
          cases layout <;> exact List.all_eq_true.mp rfl
        rw [writeMember_eq, List.append_assoc, List.append_assoc, nestingFrom_quote,
          nestingFrom_plain hcolon, ih member hmember]
      have hmembers := nestingFrom_between (.inr rfl) (SourceTree.gap_newline layout (indent + 1))
        (SourceTree.gap_newline layout indent) hmember rest
      rw [write_object, List.cons_append, depth_object, ← Nat.add_assoc, Nat.add_right_comm]
      exact hmembers

/-- The brackets of a written value are as deep as the value. -/
theorem nesting_print (layout : Layout) (json : Json) : nesting (json.print layout) = json.depth := by
  have hwrite := nestingFrom_write layout json 0 0 []
  rw [List.append_nil, Nat.zero_add] at hwrite
  exact hwrite.trans (Nat.max_zero _)

end Stylesheet.Json
