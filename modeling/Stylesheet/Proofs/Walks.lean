import Mathlib.Data.List.Basic
import Stylesheet.Proofs.ScanLemmas
import Stylesheet.Proofs.TextLemmas

/-!
# Walks

What a scan finds in a chunk of text whatever follows it, so that the finds of a written text are
put together from the finds of its parts.
-/

namespace Stylesheet

section Moves

variable {α : Type} {move : Text → Move α} {piece rest before text : Text} {found : α}

theorem scanFrom_skip (move : Text → Move α) (piece rest before : Text) :
    scanFrom move piece.length before (piece ++ rest) =
      scanFrom move 0 (piece.reverse ++ before) rest := by
  induction piece generalizing before with
  | nil => rfl
  | cons c piece ih =>
      rw [List.length_cons, List.cons_append, scanFrom, ih]
      simp

theorem scanFrom_pass (hpiece : piece ≠ []) (hmove : move (piece ++ rest) = .pass piece.length) :
    scanFrom move 0 before (piece ++ rest) = scanFrom move 0 (piece.reverse ++ before) rest := by
  obtain ⟨c, piece, rfl⟩ := List.exists_cons_of_ne_nil hpiece
  rw [List.cons_append] at hmove ⊢
  rw [scanFrom, hmove]
  simp only [List.length_cons, Nat.add_sub_cancel]
  rw [scanFrom_skip]
  simp

theorem scanFrom_take (hpiece : piece ≠ [])
    (hmove : move (piece ++ rest) = .take found piece.length) :
    scanFrom move 0 before (piece ++ rest) =
      ⟨before, found⟩ :: scanFrom move 0 (piece.reverse ++ before) rest := by
  obtain ⟨c, piece, rfl⟩ := List.exists_cons_of_ne_nil hpiece
  rw [List.cons_append] at hmove ⊢
  rw [scanFrom, hmove]
  simp only [List.length_cons, Nat.add_sub_cancel]
  rw [scanFrom_skip]
  simp

/-- A text is passed over if the scan moves on by one character at each of its places. -/
theorem scanFrom_pass_each {lead : Text}
    (h : ∀ passed ahead, lead = passed ++ ahead → ahead ≠ [] → move (ahead ++ rest) = .pass 1) :
    scanFrom move 0 before (lead ++ rest) = scanFrom move 0 (lead.reverse ++ before) rest := by
  induction lead generalizing before with
  | nil => rfl
  | cons c lead ih =>
      have hfirst : move ([c] ++ (lead ++ rest)) = .pass [c].length :=
        h [] (c :: lead) rfl (List.cons_ne_nil c lead)
      have hlead : scanFrom move 0 (c :: before) (lead ++ rest) =
          scanFrom move 0 (lead.reverse ++ c :: before) rest :=
        ih fun passed ahead hsplit => h (c :: passed) ahead (congrArg (c :: ·) hsplit)
      rw [List.cons_append, ← List.singleton_append, scanFrom_pass (List.cons_ne_nil c []) hfirst,
        List.reverse_singleton, List.singleton_append, hlead, List.reverse_cons, List.append_assoc,
        List.singleton_append]

/-- A move over a piece of text. -/
def Move.Covers (made : Move α) (piece : Text) : Prop :=
  made = .pass piece.length ∨ ∃ found, made = .take found piece.length

theorem Move.Covers.length_eq {made : Move α} (h : made.Covers piece) : made.length = piece.length := by
  rcases h with rfl | ⟨found, rfl⟩ <;> rfl

/-- A move covers one piece of the text ahead. -/
theorem Move.Covers.eq {made : Move α} {ahead other : Text} (h : made.Covers piece)
    (hother : made.Covers other) (hahead : piece <+: ahead) (hotherAhead : other <+: ahead) :
    piece = other := by
  rw [List.prefix_iff_eq_take.mp hahead, List.prefix_iff_eq_take.mp hotherAhead, ← h.length_eq,
    ← hother.length_eq]

/-- At each place of a text the move ends the scan or covers a piece of the text ahead. -/
def Strides (move : Text → Move α) : Prop :=
  ∀ text ≠ [], move text = .stop ∨
    ∃ piece rest, piece ≠ [] ∧ text = piece ++ rest ∧ (move text).Covers piece

/-- A covered piece is left behind; what is found there begins where the piece begins. -/
theorem Move.Covers.exists_finds (h : (move (piece ++ rest)).Covers piece) (hpiece : piece ≠ [])
    (before : Text) : ∃ finds : List (Site α), (∀ site ∈ finds, site.before = before) ∧
      scanFrom move 0 before (piece ++ rest) =
        finds ++ scanFrom move 0 (piece.reverse ++ before) rest := by
  rcases h with hpass | ⟨found, htake⟩
  · exact ⟨[], List.forall_mem_nil _, scanFrom_pass hpiece hpass⟩
  · exact ⟨[⟨before, found⟩], List.forall_mem_singleton.mpr rfl, scanFrom_take hpiece htake⟩

namespace Strides

/-- Induction along the moves that a scan makes in a text. -/
theorem induction {Q : Text → Prop} (hmove : Strides move) (hnil : Q [])
    (hstop : ∀ text ≠ [], move text = .stop → Q text)
    (hpiece : ∀ piece rest, piece ≠ [] → (move (piece ++ rest)).Covers piece → Q rest →
      Q (piece ++ rest)) (text : Text) : Q text := by
  induction hlength : text.length using Nat.strong_induction_on generalizing text with
  | _ length ih =>
      by_cases htext : text = []
      · exact htext ▸ hnil
      rcases hmove text htext with hstopped | ⟨piece, rest, hne, rfl, hcovers⟩
      · exact hstop text htext hstopped
      · have hshorter : rest.length < length := by
          have hpositive := List.length_pos_iff.mpr hne
          rw [← hlength, List.length_append]
          omega
        exact hpiece piece rest hne hcovers (ih rest.length hshorter rest rfl)

/-- What every move keeps holds at every find. -/
theorem invariant {P : (before ahead : Text) → Prop} (hmove : Strides move)
    (hkeep : ∀ {before piece rest}, P before (piece ++ rest) → piece ≠ [] →
      (move (piece ++ rest)).Covers piece → P (piece.reverse ++ before) rest)
    {text : Text} (hbefore : P before text) :
    ∀ site ∈ scanFrom move 0 before text, ∃ ahead, P site.before ahead := by
  induction text using hmove.induction generalizing before with
  | hnil => exact fun site hsite => absurd hsite List.not_mem_nil
  | hstop text htext hstop =>
      obtain ⟨c, text, rfl⟩ := List.exists_cons_of_ne_nil htext
      intro site hsite
      rw [scanFrom, hstop] at hsite
      exact absurd hsite List.not_mem_nil
  | hpiece piece rest hpiece hcovers ih =>
      obtain ⟨finds, hfinds, hscan⟩ := hcovers.exists_finds hpiece before
      rw [hscan]
      refine List.forall_mem_append.mpr ⟨fun site hsite => ?_, ih (hkeep hbefore hpiece hcovers)⟩
      exact ⟨piece ++ rest, hfinds site hsite ▸ hbefore⟩

end Strides

theorem scanFrom_contents (move : Text → Move α) (skip : Nat) (before before' text : Text) :
    (scanFrom move skip before text).map Site.content =
      (scanFrom move skip before' text).map Site.content := by
  induction text generalizing skip before before' with
  | nil => rfl
  | cons c text ih =>
      cases skip with
      | succ skip => exact ih skip _ _
      | zero =>
          rw [scanFrom, scanFrom]
          cases move (c :: text) with
          | stop => rfl
          | pass length => exact ih _ _ _
          | take found length => exact congrArg (found :: ·) (ih _ _ _)

end Moves

section Passes

variable {α β : Type} {move : Text → Move α} {chunk other : Text}

/-- Nothing is found in a chunk, and the scan goes on behind it. -/
def Passes (move : Text → Move α) (chunk : Text) : Prop :=
  ∀ before rest, scanFrom move 0 before (chunk ++ rest) =
    scanFrom move 0 (chunk.reverse ++ before) rest

theorem Passes.nil (move : Text → Move α) : Passes move [] :=
  fun _ _ => rfl

theorem Passes.append (h : Passes move chunk) (hother : Passes move other) :
    Passes move (chunk ++ other) := by
  intro before rest
  rw [List.append_assoc, h, hother, List.reverse_append, List.append_assoc]

theorem Passes.flatMap {write : β → Text} {items : List β}
    (h : ∀ item ∈ items, Passes move (write item)) : Passes move (items.flatMap write) :=
  Text.flatMap_closed (.nil move) .append h

theorem Passes.of_move (hchunk : chunk ≠ [])
    (h : ∀ rest, move (chunk ++ rest) = .pass chunk.length) : Passes move chunk :=
  fun _ rest => scanFrom_pass hchunk (h rest)

theorem Passes.of_forall (h : ∀ c ∈ chunk, ∀ rest, move (c :: rest) = .pass 1) :
    Passes move chunk := by
  refine fun before rest => scanFrom_pass_each fun passed ahead hsplit hne => ?_
  obtain ⟨c, ahead, rfl⟩ := List.exists_cons_of_ne_nil hne
  exact h c (hsplit ▸ List.mem_append_right passed List.mem_cons_self) (ahead ++ rest)

theorem Passes.scanContents_append (h : Passes move chunk) (rest : Text) :
    scanContents move (chunk ++ rest) = scanContents move rest := by
  rw [scanContents, scan, h]
  exact scanFrom_contents move 0 _ _ _

theorem Passes.scan_eq_nil (h : Passes move chunk) : scan move chunk = [] := by
  have hpass := h [] []
  rwa [List.append_nil, List.append_nil] at hpass

theorem scanContents_pass {rest : Text} (hchunk : chunk ≠ [])
    (hmove : move (chunk ++ rest) = .pass chunk.length) :
    scanContents move (chunk ++ rest) = scanContents move rest := by
  rw [scanContents, scan, scanFrom_pass hchunk hmove]
  exact scanFrom_contents move 0 _ _ _

theorem scanContents_take {found : α} {rest : Text} (hchunk : chunk ≠ [])
    (hmove : move (chunk ++ rest) = .take found chunk.length) :
    scanContents move (chunk ++ rest) = found :: scanContents move rest := by
  rw [scanContents, scan, scanFrom_take hchunk hmove]
  exact congrArg (found :: ·) (scanFrom_contents move 0 _ _ _)

end Passes

section Walks

variable {α β γ : Type} {move : Text → Move α} {view : Site α → β} {First Then Last : Text → Prop}
  {chunk other : Text} {finds others : List β}

/-- From any place at which `First` holds of the text before it, the scan finds the same in a chunk,
and `Then` holds behind the chunk. -/
def Walks (move : Text → Move α) (view : Site α → β) (First : Text → Prop) (chunk : Text)
    (finds : List β) (Then : Text → Prop) : Prop :=
  ∀ before, First before → Then (chunk.reverse ++ before) ∧
    ∀ rest, (scanFrom move 0 before (chunk ++ rest)).map view =
      finds ++ (scanFrom move 0 (chunk.reverse ++ before) rest).map view

theorem Walks.nil (move : Text → Move α) (view : Site α → β) (First : Text → Prop) :
    Walks move view First [] [] First :=
  fun _ hbefore => ⟨hbefore, fun _ => rfl⟩

theorem Walks.append (h : Walks move view First chunk finds Then)
    (hother : Walks move view Then other others Last) :
    Walks move view First (chunk ++ other) (finds ++ others) Last := by
  intro before hbefore
  obtain ⟨hthen, hfinds⟩ := h before hbefore
  obtain ⟨hlast, hothers⟩ := hother _ hthen
  rw [List.reverse_append, List.append_assoc]
  refine ⟨hlast, fun rest => ?_⟩
  rw [List.append_assoc, hfinds, hothers, List.append_assoc]

theorem Walks.flatMap {write : γ → Text} {value : γ → List β} {items : List γ}
    (h : ∀ item ∈ items, Walks move view First (write item) (value item) First) :
    Walks move view First (items.flatMap write) (items.flatMap value) First := by
  induction items with
  | nil => exact .nil move view First
  | cons item items ih =>
      obtain ⟨hitem, hitems⟩ := List.forall_mem_cons.mp h
      rw [List.flatMap_cons, List.flatMap_cons]
      exact hitem.append (ih hitems)

theorem Passes.walks (h : Passes move chunk)
    (hthen : ∀ before, First before → Then (chunk.reverse ++ before)) :
    Walks move view First chunk [] Then := by
  intro before hbefore
  refine ⟨hthen before hbefore, fun rest => ?_⟩
  rw [h, List.nil_append]

theorem Walks.take {find : β} (hchunk : chunk ≠ [])
    (htake : ∀ rest, ∃ found, move (chunk ++ rest) = .take found chunk.length ∧
      ∀ before, First before → view ⟨before, found⟩ = find)
    (hthen : ∀ before, First before → Then (chunk.reverse ++ before)) :
    Walks move view First chunk [find] Then := by
  intro before hbefore
  refine ⟨hthen before hbefore, fun rest => ?_⟩
  obtain ⟨found, hmove, hview⟩ := htake rest
  rw [scanFrom_take hchunk hmove, List.map_cons, hview before hbefore]
  rfl

theorem Walks.scan_eq (h : Walks move view First chunk finds Then) (hfirst : First []) :
    (scan move chunk).map view = finds := by
  have hfinds := (h [] hfirst).2 []
  rw [List.append_nil] at hfinds
  rw [scan, hfinds, scanFrom, List.map_nil, List.append_nil]

end Walks

/-- The finds in written items when blanks may stand before each of them. An item may begin with
blanks and end in them; those at its end count as the lead of the next one. -/
theorem scanContents_items {α β γ : Type} {move : Text → Move α} {view : α → γ} {write : β → Text}
    {value : β → γ} {items : List β} (hend : ∀ blanks, Blank blanks → scanContents move blanks = [])
    (hitem : ∀ item ∈ items, ∃ trail, Blank trail ∧ ∀ lead rest, Blank lead →
      (scanContents move (lead ++ (write item ++ rest))).map view =
        value item :: (scanContents move (trail ++ rest)).map view) :
    ∀ lead tail, Blank lead → Blank tail →
      (scanContents move (lead ++ (items.flatMap write ++ tail))).map view = items.map value := by
  induction items with
  | nil =>
      intro lead tail hlead htail
      rw [List.flatMap_nil, List.nil_append, hend _ (hlead.append htail)]
      rfl
  | cons item items ih =>
      obtain ⟨⟨trail, htrail, hwalk⟩, hitems⟩ := List.forall_mem_cons.mp hitem
      intro lead tail hlead htail
      rw [List.flatMap_cons, List.append_assoc, hwalk lead _ hlead, ih hitems trail tail htrail htail,
        List.map_cons]

end Stylesheet
