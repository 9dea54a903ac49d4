import Stylesheet.Proofs.StyleRuleLemmas
import Stylesheet.Proofs.Utf8Bytes
import Stylesheet.Proofs.Walks

/-!
# Checked access to a text

The operations by which a byte-wise program looks at a text. Each of them tells when it is misused: a
place may lie beyond the end of the text, a slice may begin or end inside a character, a difference
may be negative, and a loop may stall.
-/

namespace Stylesheet

inductive Checked.Fault where
  | range
  | inside
  | underflow
  | stalled
deriving DecidableEq

/-- A result, unless the text was misused on the way to it. -/
abbrev Checked := Except Checked.Fault

namespace Checked

def byteAt (text : Text) (index : Nat) : Checked UInt8 :=
  match text.utf8[index]? with
  | some byte => .ok byte
  | none => .error .range

def byteSlice (text : Text) (start stop : Nat) : Checked (List UInt8) :=
  if start ≤ stop ∧ stop ≤ text.byteSize then .ok ((text.utf8.take stop).drop start)
  else .error .range

/-- The two parts of a text before and behind an offset. -/
def cutAt (text : Text) (offset : Nat) : Checked (Text × Text) :=
  match text.splitAtByte offset with
  | some parts => .ok parts
  | none => .error (if offset ≤ text.byteSize then .inside else .range)

def sliceFrom (text : Text) (start : Nat) : Checked Text :=
  (cutAt text start).map Prod.snd

def sliceTo (text : Text) (stop : Nat) : Checked Text :=
  (cutAt text stop).map Prod.fst

def slice (text : Text) (start stop : Nat) : Checked Text := do
  if stop < start then .error .range
  else sliceTo (← sliceFrom text start) (stop - start)

def minus (n k : Nat) : Checked Nat :=
  if k ≤ n then .ok (n - k) else .error .underflow

variable {text front piece rest : Text} {offset start stop : Nat}

theorem cutAt_eq_ok_iff :
    cutAt text offset = .ok (front, rest) ↔ text = front ++ rest ∧ front.byteSize = offset := by
  rw [← Text.splitAtByte_eq_some_iff, cutAt]
  cases text.splitAtByte offset with
  | none => simp
  | some parts => simp

theorem cutAt_of_eq (htext : text = front ++ rest) (hoffset : offset = front.byteSize) :
    cutAt text offset = .ok (front, rest) :=
  cutAt_eq_ok_iff.mpr ⟨htext, hoffset.symm⟩

theorem sliceFrom_of_eq (htext : text = front ++ rest) (hstart : start = front.byteSize) :
    sliceFrom text start = .ok rest := by
  rw [sliceFrom, cutAt_of_eq htext hstart]
  rfl

theorem sliceTo_of_eq (htext : text = front ++ rest) (hstop : stop = front.byteSize) :
    sliceTo text stop = .ok front := by
  rw [sliceTo, cutAt_of_eq htext hstop]
  rfl

/-- A slice succeeds exactly if the text has a piece between its two ends. -/
theorem slice_eq_ok_iff : slice text start stop = .ok piece ↔
    ∃ front rest, text = front ++ (piece ++ rest) ∧ start = front.byteSize ∧
      stop = front.byteSize + piece.byteSize := by
  unfold slice
  constructor
  · intro h
    split at h
    · contradiction
    · next hle =>
        rw [sliceFrom] at h
        cases hcut : cutAt text start with
        | error fault =>
            rw [hcut] at h
            contradiction
        | ok parts =>
            obtain ⟨front, ahead⟩ := parts
            obtain ⟨rfl, hfront⟩ := cutAt_eq_ok_iff.mp hcut
            rw [hcut] at h
            change sliceTo ahead (stop - start) = .ok piece at h
            rw [sliceTo] at h
            cases hpiece : cutAt ahead (stop - start) with
            | error fault =>
                rw [hpiece] at h
                contradiction
            | ok parts =>
                obtain ⟨inner, rest⟩ := parts
                obtain ⟨rfl, hinner⟩ := cutAt_eq_ok_iff.mp hpiece
                rw [hpiece] at h
                obtain rfl : inner = piece := Except.ok.inj h
                exact ⟨front, rest, rfl, hfront.symm, by omega⟩
  · rintro ⟨front, rest, rfl, rfl, rfl⟩
    rw [if_neg (by omega), sliceFrom_of_eq rfl rfl]
    exact sliceTo_of_eq rfl (by omega)

example : slice ['é', '{'] 1 3 = .error .inside :=
  rfl

theorem minus_of_le {n k : Nat} (h : k ≤ n) : minus n k = .ok (n - k) :=
  if_pos h

theorem byteSlice_of_le (hstart : start ≤ stop) (hstop : stop ≤ text.byteSize) :
    byteSlice text start stop = .ok ((text.utf8.take stop).drop start) :=
  if_pos ⟨hstart, hstop⟩

/-- The bytes between two places that both lie between characters. -/
theorem byteSlice_of_eq (htext : text = front ++ (piece ++ rest)) (hstart : start = front.byteSize)
    (hstop : stop = front.byteSize + piece.byteSize) : byteSlice text start stop = .ok piece.utf8 := by
  have hsize : stop ≤ text.byteSize := by
    rw [htext, Text.byteSize_append, Text.byteSize_append]
    omega
  rw [byteSlice_of_le (by omega) hsize, htext, hstop, hstart, Text.utf8_append, Text.utf8_append,
    ← Text.length_utf8, ← Text.length_utf8, List.take_length_add_append, List.drop_left,
    List.take_left]

theorem byteAt_of_eq {bytes more : List UInt8} {b : UInt8} (hbytes : text.utf8 = bytes ++ b :: more)
    (hoffset : offset = bytes.length) : byteAt text offset = .ok b := by
  have hbyte : text.utf8[offset]? = some b := by
    rw [hbytes, hoffset, List.getElem?_append_right (Nat.le_refl _), Nat.sub_self]
    rfl
  rw [byteAt, hbyte]

/-- The byte behind a front part is one of the next character. -/
theorem exists_byteAt {c : Char} (htext : text = front ++ c :: rest)
    (hoffset : offset = front.byteSize) :
    ∃ b ∈ String.utf8EncodeChar c, byteAt text offset = .ok b := by
  obtain ⟨b, hmem, bytes, hfirst⟩ := Text.exists_utf8_cons c rest
  have hbytes : text.utf8 = front.utf8 ++ b :: bytes := by
    rw [htext, Text.utf8_append, hfirst]
  refine ⟨b, hmem, byteAt_of_eq hbytes ?_⟩
  rw [hoffset, Text.length_utf8]

/-- The byte before the end of a front part is one of its last character. -/
theorem exists_byteAt_back {c : Char} (htext : text = front ++ [c] ++ rest)
    (hoffset : offset + 1 = Text.byteSize (front ++ [c])) :
    ∃ b ∈ String.utf8EncodeChar c, byteAt text offset = .ok b := by
  obtain ⟨b, hmem, bytes, hlast⟩ := Text.exists_utf8_concat front c
  have hbytes : text.utf8 = bytes ++ b :: rest.utf8 := by
    rw [htext, Text.utf8_append, hlast, List.append_assoc, List.singleton_append]
  refine ⟨b, hmem, byteAt_of_eq hbytes ?_⟩
  rw [← Text.length_utf8, hlast, List.length_append, List.length_singleton] at hoffset
  exact Nat.succ.inj hoffset

/-! ### Searching for words -/

/-- The offset of the first occurrence of a word. -/
def find? (word : Text) : Text → Option Nat
  | [] => none
  | c :: text =>
      if word.isPrefixOf (c :: text) then some 0 else (find? word text).map (c.utf8Size + ·)

/-- The offset of the last occurrence of a word. -/
def rfind? (word : Text) : Text → Option Nat
  | [] => none
  | c :: text =>
      match rfind? word text with
      | some offset => some (c.utf8Size + offset)
      | none => if word.isPrefixOf (c :: text) then some 0 else none

variable {mark x y : Char}

theorem find?_mark_append (h : mark ∉ front) (rest : Text) :
    find? [mark] (front ++ rest) = (find? [mark] rest).map (front.byteSize + ·) := by
  induction front with
  | nil => simp [Text.byteSize]
  | cons c front ih =>
      simp only [List.mem_cons, not_or] at h
      have hno : [mark].isPrefixOf (c :: (front ++ rest)) = false := by
        simpa [List.isPrefixOf] using h.1
      rw [List.cons_append, find?, hno, ih h.2, if_neg Bool.false_ne_true, Option.map_map,
        Text.byteSize]
      congr 1
      funext offset
      exact (Nat.add_assoc _ _ _).symm

theorem find?_mark_cons (mark : Char) (rest : Text) : find? [mark] (mark :: rest) = some 0 := by
  simp [find?, List.isPrefixOf]

theorem find?_mark_of_not_mem (h : mark ∉ text) : find? [mark] text = none := by
  have hnone := find?_mark_append h []
  rwa [List.append_nil] at hnone

/-- A mark is found where the text is cut at it. -/
theorem find?_mark (mark : Char) (text : Text) :
    find? [mark] text = (text.cut? mark).map fun (front, _) => front.byteSize := by
  cases hcut : text.cut? mark with
  | none =>
      refine find?_mark_of_not_mem fun hmem => ?_
      obtain ⟨front, rest, rfl, hfront⟩ := List.eq_append_cons_of_mem hmem
      rw [Text.cut?_append_cons hfront] at hcut
      contradiction
  | some cut =>
      obtain ⟨front, rest⟩ := cut
      obtain ⟨rfl, hfront⟩ := Text.cut?_eq_some_iff.mp hcut
      rw [find?_mark_append hfront, find?_mark_cons]
      rfl

/-- The closer of a comment is found where the body ends. -/
theorem find?_closer (text : Text) :
    find? "*/".toList text = (Comment.body? text).map fun (body, _) => body.byteSize := by
  fun_induction Comment.body? text with
  | case1 => rfl
  | case2 text => simp [find?, List.isPrefixOf, Text.byteSize]
  | case3 c text hcloser ih =>
      have hno : "*/".toList.isPrefixOf (c :: text) = false := by
        rw [Bool.eq_false_iff]
        intro hprefix
        obtain ⟨rest, hrest⟩ := List.isPrefixOf_iff_prefix.mp hprefix
        obtain ⟨hc, htext⟩ := List.cons.inj hrest
        exact hcloser rest hc.symm htext.symm
      rw [find?, hno, ih, if_neg Bool.false_ne_true, Option.map_map, Option.map_map]
      rfl

theorem rfind?_eq_none (h : ¬[x, y] <:+: text) : rfind? [x, y] text = none := by
  induction text with
  | nil => rfl
  | cons c text ih =>
      have hno : ¬[x, y].isPrefixOf (c :: text) = true := fun hprefix =>
        h (List.isPrefixOf_iff_prefix.mp hprefix).isInfix
      rw [rfind?, ih fun hpart => h (hpart.trans (List.suffix_cons c text).isInfix)]
      exact if_neg hno

theorem rfind?_append {word : Text} (h : rfind? word rest = some offset) (front : Text) :
    rfind? word (front ++ rest) = some (front.byteSize + offset) := by
  induction front with
  | nil => simpa [Text.byteSize] using h
  | cons c front ih =>
      rw [List.cons_append, rfind?, ih, Text.byteSize, Nat.add_assoc]

/-- The last of several occurrences. -/
theorem rfind?_last (hxy : x ≠ y) (h : ¬[x, y] <:+: rest) (front : Text) :
    rfind? [x, y] (front ++ x :: y :: rest) = some front.byteSize := by
  have hrest : ¬[x, y] <:+: y :: rest := by
    intro hpart
    obtain ⟨more, hmore⟩ := (List.infix_cons_iff.mp hpart).resolve_right h
    exact hxy (List.cons.inj hmore).1
  have hfound : rfind? [x, y] (x :: y :: rest) = some 0 := by
    rw [rfind?, rfind?_eq_none hrest]
    simp [List.isPrefixOf]
  exact rfind?_append hfound front

/-! ### Loops -/

/-- What one iteration of a loop over the offsets of a text leads to. -/
inductive Step (α : Type) where
  | done
  | next (offset : Nat)
  | found (content : α) (offset : Nat)

/-- What the iterations of a loop find, one after the other. -/
def loop {α : Type} (step : Nat → Checked (Step α)) : (fuel offset : Nat) → Checked (List α)
  | 0, _ => .error .stalled
  | fuel + 1, offset => do
      match ← step offset with
      | .done => return []
      | .next offset => loop step fuel offset
      | .found content offset => return content :: (← loop step fuel offset)

variable {α β : Type} {move : Text → Move α} {view : Site α → β} {step : Nat → Checked (Step β)}

/-- An iteration of a loop does what a scan does in one or more moves. -/
inductive Follows (move : Text → Move α) (view : Site α → β) (front : Text) :
    (ahead : Text) → Step β → Prop
  | done {ahead : Text} (nothing : scanFrom move 0 front.reverse ahead = []) :
      Follows move view front ahead .done
  | next {piece rest : Text} {offset : Nat} (progress : piece ≠ [])
      (offset_eq : offset = Text.byteSize (front ++ piece))
      (scan_eq : scanFrom move 0 front.reverse (piece ++ rest) =
        scanFrom move 0 (front ++ piece).reverse rest) :
      Follows move view front (piece ++ rest) (.next offset)
  | found {piece rest : Text} {content : β} {offset : Nat} (progress : piece ≠ [])
      (offset_eq : offset = Text.byteSize (front ++ piece))
      (scan_eq : (scanFrom move 0 front.reverse (piece ++ rest)).map view =
        content :: (scanFrom move 0 (front ++ piece).reverse rest).map view) :
      Follows move view front (piece ++ rest) (.found content offset)

/-- A loop whose iterations never fail and do what a scan does finds what the scan finds. -/
theorem loop_eq_scanFrom
    (hstep : ∀ front ahead, text = front ++ ahead →
      ∃ made, step front.byteSize = .ok made ∧ Follows move view front ahead made)
    {fuel : Nat} {front ahead : Text} (htext : text = front ++ ahead) (hfuel : ahead.length < fuel) :
    loop step fuel front.byteSize = .ok ((scanFrom move 0 front.reverse ahead).map view) := by
  induction fuel generalizing front ahead with
  | zero => exact absurd hfuel (Nat.not_lt_zero _)
  | succ fuel ih =>
      obtain ⟨made, hmade, hfollows⟩ := hstep front ahead htext
      rw [loop, hmade]
      have hrest : ∀ {piece rest : Text}, piece ≠ [] → ahead = piece ++ rest →
          loop step fuel (Text.byteSize (front ++ piece)) =
            .ok ((scanFrom move 0 (front ++ piece).reverse rest).map view) := by
        rintro piece rest hpiece rfl
        have hpositive := List.length_pos_iff.mpr hpiece
        rw [List.length_append] at hfuel
        exact ih (by rw [htext, List.append_assoc]) (by omega)
      cases hfollows with
      | done nothing =>
          rw [nothing]
          rfl
      | next progress offset_eq scan_eq =>
          rw [scan_eq, ← hrest progress rfl, offset_eq]
          rfl
      | found progress offset_eq scan_eq =>
          rw [scan_eq, offset_eq]
          change (loop step fuel _ >>= fun _ => _) = _
          rw [hrest progress rfl]
          rfl

theorem loop_eq_scan
    (hstep : ∀ front ahead, text = front ++ ahead →
      ∃ made, step front.byteSize = .ok made ∧ Follows move view front ahead made) :
    loop step (text.byteSize + 1) 0 = .ok ((scan move text).map view) := by
  have hfuel : text.length < text.byteSize + 1 := by
    have hlength := Text.length_le_byteSize text
    omega
  exact loop_eq_scanFrom hstep (List.nil_append text).symm hfuel

/-- What a scan passes over first does not matter. -/
theorem Follows.behind {front skipped ahead : Text} {made : Step β}
    (h : scanFrom move 0 front.reverse (skipped ++ ahead) =
      scanFrom move 0 (front ++ skipped).reverse ahead)
    (hfollows : Follows move view (front ++ skipped) ahead made) :
    Follows move view front (skipped ++ ahead) made := by
  cases hfollows with
  | done nothing => exact .done (h.trans nothing)
  | @next piece rest offset progress offset_eq scan_eq =>
      rw [← List.append_assoc] at h ⊢
      refine .next (List.append_ne_nil_of_right_ne_nil skipped progress) ?_ ?_
      · rw [offset_eq, List.append_assoc]
      · rw [h, scan_eq, List.append_assoc]
  | @found piece rest content offset progress offset_eq scan_eq =>
      rw [← List.append_assoc] at h ⊢
      refine .found (List.append_ne_nil_of_right_ne_nil skipped progress) ?_ ?_
      · rw [offset_eq, List.append_assoc]
      · rw [h, scan_eq, List.append_assoc]

theorem Follows.of_stop {front ahead : Text} (h : ahead ≠ [] → move ahead = .stop) :
    Follows move view front ahead .done := by
  refine .done ?_
  cases ahead with
  | nil => rfl
  | cons c ahead => rw [scanFrom, h (List.cons_ne_nil c ahead)]

theorem Follows.of_pass {front piece rest : Text} {offset : Nat} (hpiece : piece ≠ [])
    (hoffset : offset = Text.byteSize (front ++ piece))
    (h : move (piece ++ rest) = .pass piece.length) :
    Follows move view front (piece ++ rest) (.next offset) := by
  refine .next hpiece hoffset ?_
  rw [scanFrom_pass hpiece h, List.reverse_append]

theorem Follows.of_take {front piece rest : Text} {offset : Nat} {found : α} (hpiece : piece ≠ [])
    (hoffset : offset = Text.byteSize (front ++ piece))
    (h : move (piece ++ rest) = .take found piece.length) :
    Follows move view front (piece ++ rest) (.found (view ⟨front.reverse, found⟩) offset) := by
  refine .found hpiece hoffset ?_
  rw [scanFrom_take hpiece h, List.map_cons, List.reverse_append]

end Checked

end Stylesheet
