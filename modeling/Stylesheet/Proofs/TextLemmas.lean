import Stylesheet.Text
import Mathlib.Data.List.Basic
import Mathlib.Data.List.TakeWhile

/-!
# Cuts of a text

Every cut is pinned down by what it says about the text that was cut: the parts put together again
are the text, and the front part lacks what the cut was made at.
-/

namespace Stylesheet

/-- A text of ASCII blanks. -/
abbrev Blank (text : Text) : Prop :=
  ∀ c ∈ text, isBlank c = true

theorem Blank.append {front back : Text} (hfront : Blank front) (hback : Blank back) :
    Blank (front ++ back) := by
  intro c hc
  rcases List.mem_append.mp hc with hc | hc
  · exact hfront c hc
  · exact hback c hc

theorem blank_of_all {text : Text} (h : text.all isBlank = true) : Blank text :=
  List.all_eq_true.mp h

theorem blank_feed : Blank ['\n'] :=
  blank_of_all rfl

theorem blank_space : Blank [' '] :=
  blank_of_all rfl

theorem blank_tab : Blank ['\t'] :=
  blank_of_all rfl

namespace Text

variable {text front rest more word : Text} {mark c : Char} {p : Char → Bool}

theorem after?_eq_some_iff : after? text word = some rest ↔ text = word ++ rest := by
  induction word generalizing text with
  | nil => simp [after?]
  | cons w word ih =>
      cases text with
      | nil => simp [after?]
      | cons c text => by_cases hc : c = w <;> simp [after?, hc, ih]

theorem cut?_append_cons (hfront : mark ∉ front) :
    cut? mark (front ++ mark :: rest) = some (front, rest) := by
  induction front with
  | nil => simp [cut?]
  | cons c front ih =>
      simp only [List.mem_cons, not_or] at hfront
      simp [cut?, Ne.symm hfront.1, ih hfront.2]

theorem cut?_eq_some_iff :
    cut? mark text = some (front, rest) ↔ text = front ++ mark :: rest ∧ mark ∉ front := by
  refine ⟨fun h => ?_, fun ⟨heq, hfront⟩ => heq ▸ cut?_append_cons hfront⟩
  induction text generalizing front with
  | nil => simp [cut?] at h
  | cons c text ih =>
      by_cases hc : c = mark
      · simp only [cut?, hc, if_true, Option.some.injEq, Prod.mk.injEq] at h
        obtain ⟨rfl, rfl⟩ := h
        simp [hc]
      · simp only [cut?, hc, if_false, Option.map_eq_some_iff] at h
        obtain ⟨⟨tailFront, tailRest⟩, htail, hpair⟩ := h
        obtain ⟨rfl, rfl⟩ := Prod.mk.inj hpair
        obtain ⟨htext, hmark⟩ := ih htail
        exact ⟨by rw [htext]; rfl, by simp [Ne.symm hc, hmark]⟩

theorem not_mem_of_forall (h : ∀ d ∈ text, p d = true) (hc : p c = false) : c ∉ text := fun hmem =>
  Bool.false_ne_true (hc.symm.trans (h c hmem))

theorem not_mem_of_all (h : text.all p = true) (hc : p c = false) : c ∉ text :=
  not_mem_of_forall (List.all_eq_true.mp h) hc

/-- What holds of the empty text and of two texts together holds of a written list if it holds of
each item. -/
theorem flatMap_closed {P : Text → Prop} (hnil : P [])
    (happend : ∀ {front back}, P front → P back → P (front ++ back)) {β : Type} {write : β → Text}
    {items : List β} (h : ∀ item ∈ items, P (write item)) : P (items.flatMap write) := by
  induction items with
  | nil => exact hnil
  | cons item items ih =>
      obtain ⟨hitem, hitems⟩ := List.forall_mem_cons.mp h
      rw [List.flatMap_cons]
      exact happend hitem (ih hitems)

/-! ### Pieces -/

theorem pieces_eq_splitOn (mark : Char) (text : Text) : pieces mark text = text.splitOn mark := by
  induction text with
  | nil => rw [pieces, List.splitOn_nil]
  | cons c text ih =>
      obtain ⟨piece, others, h⟩ := List.exists_cons_of_ne_nil (List.splitOn_ne_nil mark text)
      rw [List.splitOn_cons_eq_if_modifyHead, pieces, ih, h]
      simp only [beq_iff_eq, List.modifyHead_cons]

theorem pieces_ne_nil (mark : Char) (text : Text) : pieces mark text ≠ [] := by
  rw [pieces_eq_splitOn]
  exact List.splitOn_ne_nil mark text

theorem pieces_of_not_mem (h : mark ∉ text) : pieces mark text = [text] := by
  rw [pieces_eq_splitOn]
  exact List.splitOn_eq_singleton h

theorem pieces_append_cons (h : mark ∉ front) (rest : Text) :
    pieces mark (front ++ mark :: rest) = front :: pieces mark rest := by
  rw [pieces_eq_splitOn, pieces_eq_splitOn]
  exact List.splitOn_append_cons_self_of_not_mem h rest

theorem pieces_cons (hc : c ≠ mark) (text : Text) :
    ∃ piece others, pieces mark text = piece :: others ∧
      pieces mark (c :: text) = (c :: piece) :: others := by
  obtain ⟨piece, others, h⟩ := List.exists_cons_of_ne_nil (pieces_ne_nil mark text)
  refine ⟨piece, others, h, ?_⟩
  rw [pieces, if_neg hc, h]

theorem not_mem_of_mem_pieces : ∀ piece ∈ pieces mark text, mark ∉ piece := by
  induction text with
  | nil => exact List.forall_mem_singleton.mpr List.not_mem_nil
  | cons c text ih =>
      by_cases hc : c = mark
      · rw [pieces, if_pos hc]
        exact List.forall_mem_cons.mpr ⟨List.not_mem_nil, ih⟩
      · obtain ⟨piece, others, htext, hcons⟩ := pieces_cons hc text
        rw [htext] at ih
        obtain ⟨hpiece, hothers⟩ := List.forall_mem_cons.mp ih
        rw [hcons]
        refine List.forall_mem_cons.mpr ⟨?_, hothers⟩
        rw [List.mem_cons, not_or]
        exact ⟨Ne.symm hc, hpiece⟩

theorem infix_intercalate {pieces : List Text} {piece : Text} (h : piece ∈ pieces) (joint : Text) :
    piece <:+: joint.intercalate pieces := by
  induction pieces with
  | nil => exact absurd h List.not_mem_nil
  | cons first others ih =>
      cases others with
      | nil => simp [List.mem_singleton.mp h]
      | cons second others =>
          rw [List.intercalate_cons_cons]
          rcases List.mem_cons.mp h with rfl | hmem
          · rw [List.append_assoc]
            exact (List.prefix_append piece _).isInfix
          · exact (ih hmem).trans (List.suffix_append _ _).isInfix

theorem infix_of_mem_pieces {piece : Text} (h : piece ∈ pieces mark text) : piece <:+: text := by
  have hinfix := infix_intercalate h [mark]
  rwa [pieces_eq_splitOn, List.intercalate_splitOn] at hinfix

/-! ### Maximal runs -/

theorem takeWhile_append_of_stop (hfront : ∀ c ∈ front, p c = true)
    (hstop : ∀ c ∈ rest.head?, p c = false) : (front ++ rest).takeWhile p = front := by
  rw [List.takeWhile_append_of_pos hfront]
  cases rest with
  | nil => simp
  | cons c rest => rw [List.takeWhile_cons_of_neg (by simp [hstop c rfl]), List.append_nil]

theorem dropWhile_append_of_stop (hfront : ∀ c ∈ front, p c = true)
    (hstop : ∀ c ∈ rest.head?, p c = false) : (front ++ rest).dropWhile p = rest := by
  rw [List.dropWhile_append_of_pos hfront]
  cases rest with
  | nil => simp
  | cons c rest => rw [List.dropWhile_cons_of_neg (by simp [hstop c rfl])]

theorem takeWhile_append_cons (hfront : ∀ c ∈ front, p c = true) (hc : p c = false) :
    (front ++ c :: rest).takeWhile p = front :=
  takeWhile_append_of_stop hfront (by simpa using hc)

theorem dropWhile_append_cons (hfront : ∀ c ∈ front, p c = true) (hc : p c = false) :
    (front ++ c :: rest).dropWhile p = c :: rest :=
  dropWhile_append_of_stop hfront (by simpa using hc)

/-- A character at which a run stops stops it behind any text. -/
theorem dropWhile_append_mark (hmark : p mark = false) (front rest : Text) :
    (front ++ mark :: rest).dropWhile p = front.dropWhile p ++ mark :: rest := by
  induction front with
  | nil => exact List.dropWhile_cons_of_neg (by simp [hmark])
  | cons d front ih =>
      rw [List.cons_append]
      by_cases hd : p d = true
      · rw [List.dropWhile_cons_of_pos hd, List.dropWhile_cons_of_pos hd, ih]
      · rw [List.dropWhile_cons_of_neg hd, List.dropWhile_cons_of_neg hd, List.cons_append]

theorem takeWhile_append_mark (hmark : p mark = false) (front rest : Text) :
    (front ++ mark :: rest).takeWhile p = front.takeWhile p := by
  induction front with
  | nil => exact List.takeWhile_cons_of_neg (by simp [hmark])
  | cons d front ih =>
      rw [List.cons_append]
      by_cases hd : p d = true
      · rw [List.takeWhile_cons_of_pos hd, List.takeWhile_cons_of_pos hd, ih]
      · rw [List.takeWhile_cons_of_neg hd, List.takeWhile_cons_of_neg hd]

theorem mem_of_head?_append (hfront : front ≠ []) (h : c ∈ (front ++ rest).head?) :
    c ∈ front :=
  List.mem_of_head? (List.head?_append_of_ne_nil _ hfront ▸ h)

theorem mem_or_eq_of_head?_append_cons (h : c ∈ (front ++ mark :: rest).head?) :
    c ∈ front ∨ c = mark := by
  cases front with
  | nil => exact .inr (by simpa [eq_comm] using h)
  | cons d front => exact .inl (mem_of_head?_append (List.cons_ne_nil d front) h)

theorem eq_takeWhile_append (h : text.dropWhile p = rest) : text = text.takeWhile p ++ rest := by
  rw [← h, List.takeWhile_append_dropWhile]

theorem not_of_dropWhile_eq_cons (h : text.dropWhile p = c :: rest) : p c = false := by
  have hhead := List.head?_dropWhile_not p text
  rw [h] at hhead
  simpa using hhead

end Text

end Stylesheet
