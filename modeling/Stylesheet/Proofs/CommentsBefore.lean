import Mathlib.Data.List.Infix
import Stylesheet.Proofs.AttachedComments
import Stylesheet.Proofs.CheckedComments

/-!
# Comments before an offset

The bytes before an offset decide which comments are attached to it. The strict way of attaching
comments reads the same ones back as the loose way, but ends where a form feed parts two of them.
And comments that are written before an offset are found there, whatever text they are written
behind.
-/

namespace Stylesheet

namespace Adjacency

variable {narrow wide : Adjacency} {before : Text}

/-- An adjacency that allows less finds the nearest of the comments. -/
theorem readBack_isPrefix (h : ∀ c ∈ before, narrow.allows c = true → wide.allows c = true)
    (inside : Option Text) : narrow.readBack inside before <+: wide.readBack inside before := by
  fun_induction readBack narrow inside before with
  | case1 before ih =>
      rw [readBack]
      exact ih fun c hc => h c (List.mem_cons_of_mem _ (List.mem_cons_of_mem _ hc))
  | case2 c before hpair hallows ih =>
      rw [readBack, if_pos (h c List.mem_cons_self hallows)]
      · exact ih fun d hd => h d (List.mem_cons_of_mem c hd)
      · exact hpair
  | case3 => exact List.nil_prefix
  | case4 body before ih =>
      rw [readBack, List.cons_prefix_cons]
      exact ⟨rfl, ih fun c hc => h c (List.mem_cons_of_mem _ (List.mem_cons_of_mem _ hc))⟩
  | case5 body c before hpair ih =>
      rw [readBack]
      · exact ih fun d hd => h d (List.mem_cons_of_mem c hd)
      · exact hpair
  | case6 => exact List.nil_prefix

theorem allows_loose_of_strict {c : Char} (h : strict.allows c = true) : loose.allows c = true :=
  (Bool.and_eq_true_iff.mp h).1

theorem allows_strict_of_loose {c : Char} (hfeed : c ≠ '\x0c') (h : loose.allows c = true) :
    strict.allows c = true := by
  have hblank : isBlank c = true := h
  simp [allows, hblank, hfeed]

theorem readBack_strict_isPrefix (inside : Option Text) (before : Text) :
    strict.readBack inside before <+: loose.readBack inside before :=
  readBack_isPrefix (fun _ _ => allows_loose_of_strict) inside

theorem readBack_strict_eq (hfeed : '\x0c' ∉ before) (inside : Option Text) :
    strict.readBack inside before = loose.readBack inside before := by
  have hwide : loose.readBack inside before <+: strict.readBack inside before :=
    readBack_isPrefix (fun _ hc => allows_strict_of_loose (ne_of_mem_of_not_mem hc hfeed)) inside
  exact (readBack_strict_isPrefix inside before).eq_of_length_le hwide.length_le

end Adjacency

/-! ### Bytes before an offset -/

section Offsets

variable {text other front : Text} {offset : Nat}

theorem attachedComments_of_utf8 (h : front.utf8 = text.utf8.take offset) (adjacency : Adjacency) :
    attachedComments text offset adjacency = adjacency.attached front.reverse := by
  obtain ⟨rest, hcut⟩ := Text.exists_splitAtByte_iff.mpr h
  rw [attachedComments, hcut]

/-- Inside of a character no comments are attached. -/
theorem attachedComments_inside (h : ¬∃ front : Text, front.utf8 = text.utf8.take offset)
    (adjacency : Adjacency) : attachedComments text offset adjacency = none := by
  unfold attachedComments
  split
  · rfl
  · next front rest hcut => exact absurd ⟨front, Text.exists_splitAtByte_iff.mp ⟨rest, hcut⟩⟩ h

theorem attachedComments_congr (h : other.utf8.take offset = text.utf8.take offset)
    (adjacency : Adjacency) :
    attachedComments other offset adjacency = attachedComments text offset adjacency := by
  by_cases hfront : ∃ front : Text, front.utf8 = text.utf8.take offset
  · obtain ⟨front, hfront⟩ := hfront
    rw [attachedComments_of_utf8 hfront, attachedComments_of_utf8 (hfront.trans h.symm)]
  · rw [attachedComments_inside hfront, attachedComments_inside (h ▸ hfront)]

theorem attachedComments_strict_isSuffix (text : Text) (offset : Nat) :
    (attachedComments text offset .strict).getD [] <:+
      (attachedComments text offset .loose).getD [] := by
  by_cases hfront : ∃ front : Text, front.utf8 = text.utf8.take offset
  · obtain ⟨front, hfront⟩ := hfront
    rw [attachedComments_of_utf8 hfront, attachedComments_of_utf8 hfront, Adjacency.getD_attached,
      Adjacency.getD_attached, List.reverse_suffix]
    exact Adjacency.readBack_strict_isPrefix none front.reverse
  · rw [attachedComments_inside hfront, attachedComments_inside hfront]

theorem attachedComments_strict_eq (h : '\x0c'.toUInt8 ∉ text.utf8.take offset) :
    attachedComments text offset .strict = attachedComments text offset .loose := by
  by_cases hfront : ∃ front : Text, front.utf8 = text.utf8.take offset
  · obtain ⟨front, hfront⟩ := hfront
    have hfeed : '\x0c' ∉ front.reverse := by
      rwa [List.mem_reverse, ← Text.mem_utf8_iff (by decide), hfront]
    rw [attachedComments_of_utf8 hfront, attachedComments_of_utf8 hfront, Adjacency.attached,
      Adjacency.readBack_strict_eq hfeed, Adjacency.attached]
  · rw [attachedComments_inside hfront, attachedComments_inside hfront]

end Offsets

namespace Checked

theorem exists_blank_skipSpaceBack {text : Text} {boundary : Nat} (h : boundary ≤ text.byteSize) :
    ∃ stop ≤ boundary, skipSpaceBack text boundary = .ok stop ∧
      ((text.utf8.take boundary).drop stop).all Text.isBlankByte = true := by
  induction boundary with
  | zero => exact ⟨0, Nat.le_refl 0, rfl, rfl⟩
  | succ boundary ih =>
      have hlength : boundary < text.utf8.length := by
        rw [Text.length_utf8]
        exact h
      have hbyte : byteAt text boundary = .ok text.utf8[boundary] := by
        rw [byteAt, List.getElem?_eq_getElem hlength]
      have htake : text.utf8.take (boundary + 1) =
          text.utf8.take boundary ++ [text.utf8[boundary]] :=
        (List.take_append_getElem hlength).symm
      rw [skipSpaceBack, hbyte]
      cases hblank : Text.isBlankByte text.utf8[boundary] with
      | true =>
          obtain ⟨stop, hstop, hskip, hgap⟩ := ih (Nat.le_of_succ_le h)
          have hdrop : stop ≤ (text.utf8.take boundary).length := by
            rw [List.length_take_of_le (Nat.le_of_lt hlength)]
            exact hstop
          refine ⟨stop, Nat.le_succ_of_le hstop, ?_, ?_⟩
          · simp only [bind, Except.bind, hblank, if_true, hskip]
          · rw [htake, List.drop_append_of_le_length hdrop, List.all_append, hgap]
            simp [hblank]
      | false =>
          refine ⟨boundary + 1, Nat.le_refl _, ?_, ?_⟩
          · simp only [bind, Except.bind, hblank]
            rfl
          · rw [List.drop_eq_nil_of_le (List.length_take_le _ _)]
            rfl

/-- The loose check accepts the gap before every place. -/
theorem exists_gap {text : Text} {boundary : Nat} (h : boundary ≤ text.byteSize) :
    ∃ stop gap, skipSpaceBack text boundary = .ok stop ∧ byteSlice text stop boundary = .ok gap ∧
      gap.all (allowsByte .loose) = true := by
  obtain ⟨stop, hstop, hskip, hgap⟩ := exists_blank_skipSpaceBack h
  exact ⟨stop, _, hskip, byteSlice_of_le hstop h, hgap⟩

end Checked

/-- **Strict and loose comments.** The comments that are attached to an offset strictly are the last
ones of those that are attached loosely, and all of them if there is no form feed before the offset:
the loose check accepts the blanks before a comment whatever they are. Either way the bytes before
the offset decide. -/
theorem attachedComments_strict_loose (text : Text) (offset : Nat) :
    (attachedComments text offset .strict).getD [] <:+
        (attachedComments text offset .loose).getD [] ∧
      (∀ boundary ≤ text.byteSize, ∃ stop gap, Checked.skipSpaceBack text boundary = .ok stop ∧
        Checked.byteSlice text stop boundary = .ok gap ∧
        gap.all (Checked.allowsByte .loose) = true) ∧
      (∀ (adjacency : Adjacency) (other : Text), other.utf8.take offset = text.utf8.take offset →
        attachedComments other offset adjacency = attachedComments text offset adjacency) ∧
      ('\x0c'.toUInt8 ∉ text.utf8.take offset →
        attachedComments text offset .strict = attachedComments text offset .loose) :=
  ⟨attachedComments_strict_isSuffix text offset, fun _ => Checked.exists_gap,
    fun adjacency _ h => attachedComments_congr h adjacency, attachedComments_strict_eq⟩

/-- Two comments with a form feed between them. -/
def fedPair : Text :=
  "/* a */\x0c/* é */\n".toList

theorem attachedComments_strict_loose_fedPair :
    (Text.utf8 (fedPair ++ "/* b */".toList)).take 17 = fedPair.utf8.take 17 ∧
      attachedComments (fedPair ++ "/* b */".toList) 17 .loose =
        some ["a".toList, "é".toList] ∧
      '\x0c'.toUInt8 ∉ (Text.utf8 "/* é */\n".toList).take 30 ∧
      attachedComments "/* é */\n".toList 30 .strict = some ["é".toList] := by
  have hbytes : (Text.utf8 (fedPair ++ "/* b */".toList)).take 17 = fedPair.utf8.take 17 := by
    decide
  have hfeed : '\x0c'.toUInt8 ∉ (Text.utf8 "/* é */\n".toList).take 30 := by decide
  obtain ⟨-, -, hsame, -⟩ := attachedComments_strict_loose fedPair 17
  obtain ⟨-, -, -, hequal⟩ := attachedComments_strict_loose "/* é */\n".toList 30
  refine ⟨hbytes, ?_, hfeed, ?_⟩
  · rw [hsame .loose _ hbytes]
    rfl
  · rw [hequal hfeed]
    rfl

example : attachedComments fedPair 17 .strict = some ["é".toList] := by decide

/-! ### Written comments -/

/-- **Written comments.** Normalized comments without openers that are written before an offset are
attached to it, behind those that are attached to the place where they begin. -/
theorem attachedComments_renderComments (front : Text) {entries : List Text}
    (hnormal : ∀ entry ∈ entries, Comment.normalize entry = entry)
    (hopener : ∀ entry ∈ entries, ¬['/', '*'] <:+: entry) (rest : Text) (adjacency : Adjacency) :
    (attachedComments (front ++ renderComments (some entries) ++ rest)
        (Text.byteSize (front ++ renderComments (some entries))) adjacency).getD [] =
      (attachedComments front front.byteSize adjacency).getD [] ++ entries := by
  have hfront :
      attachedComments front front.byteSize adjacency = adjacency.attached front.reverse := by
    have happend := attachedComments_append front [] adjacency
    rwa [List.append_nil] at happend
  rw [attachedComments_append, hfront, Adjacency.getD_attached, Adjacency.getD_attached,
    List.reverse_append, renderComments_eq, Option.getD_some,
    Adjacency.readBack_flatMap hnormal hopener, List.reverse_append, List.reverse_reverse]

/-- A closer that ends no comment, and a comment with a form feed behind it. -/
def strayFront : Text :=
  "x */ /* a */\x0c".toList

/-- A comment with a closer in it and a slash at its end, and one without text. -/
def closerEntries : List Text :=
  ["b */ c\n/".toList, []]

theorem attachedComments_renderComments_strayFront :
    (∀ entry ∈ closerEntries, Comment.normalize entry = entry) ∧
      (∀ entry ∈ closerEntries, ¬['/', '*'] <:+: entry) ∧
      (attachedComments (strayFront ++ renderComments (some closerEntries) ++ "*/".toList)
          (Text.byteSize (strayFront ++ renderComments (some closerEntries))) .loose).getD [] =
        ["a".toList] ++ closerEntries := by
  have hnormal : ∀ entry ∈ closerEntries, Comment.normalize entry = entry := by decide
  have hopener : ∀ entry ∈ closerEntries, ¬['/', '*'] <:+: entry := by decide
  exact ⟨hnormal, hopener,
    attachedComments_renderComments strayFront hnormal hopener "*/".toList .loose⟩

end Stylesheet
