import Mathlib.Data.List.Basic
import Mathlib.Data.List.Infix
import Stylesheet.Proofs.BlockLemmas
import Stylesheet.Proofs.CanonicalForm
import Stylesheet.Render

/-!
# Balanced texts

A text whose braces are balanced is passed over as a whole by what looks for a closing brace.
-/

namespace Stylesheet

section Pairs

variable {x y c : Char} {front back : Text}

theorem not_pair_append (hfront : ¬[x, y] <:+: front) (hback : ¬[x, y] <:+: back)
    (hjoin : x ∈ front.getLast? → y ∉ back.head?) : ¬[x, y] <:+: front ++ back := by
  rintro ⟨before, after, htext⟩
  rw [List.append_assoc] at htext
  rcases List.append_eq_append_iff.mp htext with ⟨middle, rfl, hmiddle⟩ | ⟨middle, rfl, hmiddle⟩
  · cases middle with
    | nil => exact hback ⟨[], after, hmiddle⟩
    | cons first middle =>
        obtain ⟨hfirst, hrest⟩ := List.cons.inj hmiddle
        subst hfirst
        cases middle with
        | nil =>
            have hhead : back.head? = some y := (congrArg List.head? hrest).symm
            exact hjoin (by simp) hhead
        | cons second middle =>
            obtain ⟨hsecond, -⟩ := List.cons.inj hrest
            subst hsecond
            exact hfront ⟨before, middle, by simp⟩
  · exact hback ⟨middle, after, by rw [List.append_assoc, hmiddle]⟩

theorem not_pair_of_not_mem (hx : x ∉ front) : ¬[x, y] <:+: front :=
  fun h => hx (h.subset List.mem_cons_self)

theorem not_pair_append_left (hx : x ∉ front) (hback : ¬[x, y] <:+: back) :
    ¬[x, y] <:+: front ++ back :=
  not_pair_append (not_pair_of_not_mem hx) hback fun hlast =>
    absurd (List.mem_of_getLast? hlast) hx

theorem not_pair_append_cons (hfront : ¬[x, y] <:+: front) (hc : c ≠ y)
    (hback : ¬[x, y] <:+: c :: back) : ¬[x, y] <:+: front ++ c :: back :=
  not_pair_append hfront hback fun _ hhead => hc (Option.some.inj hhead)

theorem not_pair_tail (h : ¬[x, y] <:+: c :: front) : ¬[x, y] <:+: front :=
  fun hpair => h (hpair.trans (List.suffix_cons c front).isInfix)

theorem not_pair_head (h : ¬[x, y] <:+: x :: front) : front.head? ≠ some y := by
  intro hhead
  obtain ⟨rest, rfl⟩ := List.head?_eq_some_iff.mp hhead
  exact h ⟨[], rest, rfl⟩

theorem not_pair_next {rest : Text} (h : ¬[x, y] <:+: c :: front) (hrest : rest.head? ≠ some y) :
    c = x → (front ++ rest).head? ≠ some y := by
  rintro rfl
  cases front with
  | nil => exact hrest
  | cons d front =>
      have hhead : (d :: front).head? ≠ some y := not_pair_head h
      exact hhead

end Pairs

/-- A text that a search for a closing brace passes over, however many braces are open. -/
def Balanced (text : Text) : Prop :=
  ∀ depth : Int, 1 ≤ depth → ∀ rest, balance false depth (text ++ rest) =
    (balance false depth rest).map fun (front, rest) => (text ++ front, rest)

namespace Balanced

variable {text other interior : Text}

theorem nil : Balanced [] := by
  intro depth _ rest
  rw [List.nil_append]
  cases balance false depth rest <;> rfl

theorem append (h : Balanced text) (hother : Balanced other) : Balanced (text ++ other) := by
  intro depth hdepth rest
  rw [List.append_assoc, h depth hdepth, hother depth hdepth, Option.map_map]
  congr 1
  funext cut
  obtain ⟨front, rest⟩ := cut
  simp

theorem flatMap {β : Type} {write : β → Text} {items : List β}
    (h : ∀ item ∈ items, Balanced (write item)) : Balanced (items.flatMap write) :=
  Text.flatMap_closed nil append h

theorem of_not_mem (hopening : '{' ∉ text) (hclosing : '}' ∉ text)
    (hcomment : ¬['/', '*'] <:+: text) (hlast : '/' ∉ text.getLast?) : Balanced text := by
  intro depth hdepth rest
  induction text with
  | nil => exact nil depth hdepth rest
  | cons c text ih =>
      simp only [List.mem_cons, not_or] at hopening hclosing
      have hnext : c = '/' → (text ++ rest).head? ≠ some '*' := by
        rintro rfl
        cases text with
        | nil => exact absurd rfl hlast
        | cons d text =>
            have hhead : (d :: text).head? ≠ some '*' := not_pair_head hcomment
            exact hhead
      have hlater : '/' ∉ text.getLast? := by
        cases text with
        | nil => exact fun h => nomatch h
        | cons d text => rwa [List.getLast?_cons_cons] at hlast
      rw [List.cons_append, balance_plain (Ne.symm hopening.1) (Ne.symm hclosing.1) hnext,
        ih hopening.2 hclosing.2 (not_pair_tail hcomment) hlater, Option.map_map]
      congr 1

theorem of_blank (h : Blank text) : Balanced text := by
  have hslash : '/' ∉ text := Text.not_mem_of_forall h rfl
  exact of_not_mem (Text.not_mem_of_forall h rfl) (Text.not_mem_of_forall h rfl)
    (not_pair_of_not_mem hslash) fun hlast => hslash (List.mem_of_getLast? hlast)

theorem braces (h : Balanced interior) : Balanced ('{' :: interior ++ ['}']) := by
  intro depth hdepth rest
  have hinside := h (depth + 1) (by omega) ('}' :: rest)
  have hclose : balance false (depth + 1) ('}' :: rest) =
      (balance false depth rest).map fun cut => ('}' :: cut.1, cut.2) := by
    have hdepth : depth + 1 - 1 = depth := by omega
    rw [balance, if_neg (by omega), hdepth]
  rw [List.append_assoc, List.cons_append, balance, List.singleton_append, hinside, hclose,
    Option.map_map, Option.map_map]
  congr 1
  funext cut
  obtain ⟨front, rest⟩ := cut
  simp

/-- The block around a balanced interior ends with the next brace. -/
theorem enclosed (h : Balanced interior) : Enclosed interior := by
  have hclose : balance false 1 ['}'] = some ([], []) := by rw [balance, if_pos rfl]
  rw [Enclosed, interior?, h 1 (by omega), hclose]
  simp

theorem interior?_eq (h : Balanced interior) (rest : Text) :
    interior? (interior ++ '}' :: rest) = some (interior, rest) :=
  h.enclosed.interior?_eq rest

end Balanced

/-- Without braces and comments the first closing brace ends the block. -/
theorem interior?_of_not_mem {interior : Text} (hopening : '{' ∉ interior) (hclosing : '}' ∉ interior)
    (hcomment : ¬['/', '*'] <:+: interior) (rest : Text) :
    interior? (interior ++ '}' :: rest) = some (interior, rest) := by
  induction interior with
  | nil => rw [List.nil_append, interior?, balance, if_pos rfl]
  | cons c interior ih =>
      simp only [List.mem_cons, not_or] at hopening hclosing
      have hnext : c = '/' → (interior ++ '}' :: rest).head? ≠ some '*' :=
        not_pair_next hcomment (by simp)
      have hrest := ih hopening.2 hclosing.2 (not_pair_tail hcomment)
      rw [interior?] at hrest ⊢
      rw [List.cons_append, balance_plain (Ne.symm hopening.1) (Ne.symm hclosing.1) hnext, hrest]
      rfl

/-- A header and an enclosed interior are taken as a block, whatever follows it. -/
theorem Block.move_of_form {header : Pattern} {form : Text → Text → Text → Prop}
    (hreads : header.Reads form) {lead value tail interior : Text} (hform : form lead value tail)
    (hinterior : Enclosed interior) (rest : Text) :
    Block.move header (lead ++ value ++ tail ++ (interior ++ '}' :: rest)) =
      .take ⟨⟨lead, value, tail, interior ++ '}' :: rest⟩, interior⟩
        (lead ++ value ++ tail ++ interior ++ ['}']).length :=
  Block.move_eq_take_iff.mpr
    ⟨hreads.of_form hform _, ⟨rest, hinterior.interior?_eq rest⟩, rfl⟩

end Stylesheet
