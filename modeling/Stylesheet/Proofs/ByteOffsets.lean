import Stylesheet.Block
import Stylesheet.Comment
import Stylesheet.Proofs.BlockLemmas
import Stylesheet.Proofs.TextLemmas

/-!
# Byte offsets

The byte offset behind a piece of text is the size of the piece, and a cut there parts the text.
-/

namespace Stylesheet

namespace Text

variable {front rest : Text}

theorem byteSize_append (front rest : Text) :
    byteSize (front ++ rest) = byteSize front + byteSize rest := by
  induction front with
  | nil => exact (Nat.zero_add _).symm
  | cons c front ih => rw [List.cons_append, byteSize, byteSize, ih, Nat.add_assoc]

theorem byteSize_lt_append_cons (front : Text) (c : Char) (rest : Text) :
    byteSize front < byteSize (front ++ c :: rest) := by
  have hsize : 0 < c.utf8Size := c.utf8Size_pos
  rw [byteSize_append, byteSize]
  omega

theorem byteSize_reverse (text : Text) : byteSize text.reverse = byteSize text := by
  induction text with
  | nil => rfl
  | cons c text ih =>
      rw [List.reverse_cons, byteSize_append, ih, byteSize, byteSize, Nat.add_comm]
      rfl

theorem byteSize_nil : byteSize [] = 0 :=
  rfl

theorem byteSize_opening (text : Text) : byteSize ('{' :: text) = byteSize text + 1 :=
  Nat.add_comm _ _

theorem byteSize_closing : byteSize ['}'] = 1 :=
  rfl

theorem length_le_byteSize (text : Text) : text.length ≤ byteSize text := by
  induction text with
  | nil => exact Nat.le_refl 0
  | cons c text ih =>
      have hsize : 0 < c.utf8Size := c.utf8Size_pos
      rw [List.length_cons, byteSize]
      omega

theorem splitAtByte_append (front rest : Text) :
    splitAtByte (byteSize front) (front ++ rest) = some (front, rest) := by
  induction front with
  | nil => cases rest <;> rfl
  | cons c front ih =>
      have hsize : 0 < c.utf8Size := c.utf8Size_pos
      obtain ⟨offset, hoffset⟩ : ∃ offset, byteSize (c :: front) = offset + 1 :=
        Nat.exists_eq_succ_of_ne_zero (by rw [byteSize]; omega)
      have hrest : offset + 1 - c.utf8Size = byteSize front := by
        rw [← hoffset, byteSize]
        omega
      have hfits : c.utf8Size ≤ offset + 1 := by
        rw [← hoffset, byteSize]
        omega
      rw [hoffset, List.cons_append, splitAtByte, if_pos hfits, hrest, ih]
      rfl

/-- A cut is possible exactly behind a piece that the text begins with. -/
theorem splitAtByte_eq_some_iff {text : Text} {offset : Nat} :
    splitAtByte offset text = some (front, rest) ↔ text = front ++ rest ∧ byteSize front = offset := by
  constructor
  · intro h
    fun_induction splitAtByte offset text generalizing front with
    | case1 text =>
        obtain ⟨rfl, rfl⟩ := Prod.mk.inj (Option.some.inj h)
        exact ⟨rfl, rfl⟩
    | case2 => contradiction
    | case3 offset c text hfits ih =>
        obtain ⟨⟨inner, _⟩, hinner, hpair⟩ := Option.map_eq_some_iff.mp h
        obtain ⟨rfl, rfl⟩ := Prod.mk.inj hpair
        obtain ⟨rfl, hsize⟩ := ih hinner
        refine ⟨rfl, ?_⟩
        rw [byteSize, hsize]
        omega
    | case4 => contradiction
  · rintro ⟨rfl, rfl⟩
    exact splitAtByte_append front rest

theorem takeBytes_append (front rest : Text) : takeBytes (byteSize front) (front ++ rest) = front := by
  induction front with
  | nil =>
      cases rest with
      | nil => rfl
      | cons c rest => exact if_neg (Nat.not_le.mpr c.utf8Size_pos)
  | cons c front ih =>
      rw [List.cons_append, takeBytes, byteSize, if_pos (Nat.le_add_right _ _),
        Nat.add_sub_cancel_left, ih]

theorem lineNumber_append (front rest : Text) :
    lineNumber (front ++ rest) (byteSize front) = front.count '\n' + 1 := by
  rw [lineNumber, takeBytes_append]

end Text

theorem attachedComments_append (front rest : Text) (adjacency : Adjacency) :
    attachedComments (front ++ rest) front.byteSize adjacency = adjacency.attached front.reverse := by
  have hoffset : min front.byteSize (Text.byteSize (front ++ rest)) = front.byteSize := by
    rw [Text.byteSize_append]
    omega
  rw [attachedComments, hoffset, Text.splitAtByte_append]

theorem balance_opening (depth : Int) (text : Text) :
    balance false depth ('{' :: text) =
      (balance false (depth + 1) text).map fun (front, rest) => ('{' :: front, rest) := by
  rw [balance]

theorem closingBrace?_append (front ahead : Text) :
    closingBrace? (front ++ ahead) front.byteSize =
      (balance false 0 ahead).map fun (inner, _) => front.byteSize + inner.byteSize := by
  rw [closingBrace?, Text.splitAtByte_append]
  exact Option.map_eq_bind.symm

theorem closingBrace?_eq_some_iff {front ahead : Text} {close : Nat} :
    closingBrace? (front ++ ahead) front.byteSize = some close ↔
      ∃ inner rest, balance false 0 ahead = some (inner, rest) ∧
        front.byteSize + inner.byteSize = close := by
  simp only [closingBrace?_append, Option.map_eq_some_iff, Prod.exists]

/-- The brace that closes a block stands behind its interior. -/
theorem closingBrace?_brace (front opened : Text) :
    closingBrace? (front ++ '{' :: opened) front.byteSize =
      (interior? opened).map fun (interior, _) => front.byteSize + Text.byteSize ('{' :: interior) := by
  rw [closingBrace?_append, balance_opening, Option.map_map]
  rfl

theorem closingBrace?_opening {opened interior rest : Text}
    (h : interior? opened = some (interior, rest)) (front : Text) :
    closingBrace? (front ++ '{' :: opened) front.byteSize =
      some (front.byteSize + Text.byteSize ('{' :: interior)) := by
  rw [closingBrace?_brace, h]
  rfl

/-- A text between two braces is enclosed when the last byte is what closes the first. -/
theorem enclosed_iff_closingBrace? {interior : Text} :
    Enclosed interior ↔ closingBrace? ('{' :: interior ++ ['}']) 0 =
      some (Text.byteSize ('{' :: interior)) := by
  constructor
  · intro h
    have hclose := closingBrace?_opening h []
    rwa [Text.byteSize, Nat.zero_add] at hclose
  · intro h
    have hclose : closingBrace? ([] ++ '{' :: (interior ++ ['}'])) (Text.byteSize []) =
        some (Text.byteSize ('{' :: interior)) := h
    obtain ⟨front, rest, hbalance, hsize⟩ := closingBrace?_eq_some_iff.mp hclose
    rw [Text.byteSize, Nat.zero_add] at hsize
    -- The two cuts at the closing brace are cuts at one offset, so their parts agree.
    have hfront := Text.splitAtByte_append front ('}' :: rest)
    have hinterior := Text.splitAtByte_append ('{' :: interior) ['}']
    rw [← (balance_local hbalance).1, hsize] at hfront
    obtain ⟨rfl, hrest⟩ := Prod.mk.inj (Option.some.inj (hfront.symm.trans hinterior))
    obtain rfl := (List.cons.inj hrest).2
    rw [balance_opening] at hbalance
    obtain ⟨⟨inner, _⟩, hinner, hpair⟩ := Option.map_eq_some_iff.mp hbalance
    obtain ⟨hcons, rfl⟩ := Prod.mk.inj hpair
    obtain rfl := (List.cons.inj hcons).2
    exact hinner

end Stylesheet
