import Mathlib.Data.List.Basic
import Mathlib.Data.List.DropRight
import Stylesheet.Proofs.TextLemmas

/-!
# Trimming

White space at the two ends of a text, and a first or last character that is none.
-/

namespace Stylesheet

theorem toNat_lt_of_isAlphanum {c : Char} (h : c.isAlphanum = true) : c.toNat < 128 := by
  change (decide (c.val ≥ 'A'.val ∧ c.val ≤ 'Z'.val) ||
    (decide (c.val ≥ 'a'.val) && decide (c.val ≤ 'z'.val)) ||
    (decide (c.val ≥ '0'.val) && decide (c.val ≤ '9'.val))) = true at h
  simp only [Bool.or_eq_true, Bool.and_eq_true, decide_eq_true_eq, UInt32.le_iff_toNat_le,
    ge_iff_le] at h
  change c.val.toNat < 128
  rcases h with (h | h) | h
  · exact Nat.lt_of_le_of_lt h.2 (by decide)
  · exact Nat.lt_of_le_of_lt h.2 (by decide)
  · exact Nat.lt_of_le_of_lt h.2 (by decide)

theorem not_isSpace_of_isAlphanum {c : Char} (h : c.isAlphanum = true) : isSpace c = false := by
  have hascii : ∀ code < 128, (Char.ofNat code).isAlphanum = true →
      isSpace (Char.ofNat code) = false := by decide
  have hspace := hascii c.toNat (toNat_lt_of_isAlphanum h)
  rw [Char.ofNat_toNat] at hspace
  exact hspace h

namespace Text

/-- A text of nothing but white space. -/
abbrev Space (text : Text) : Prop :=
  ∀ c ∈ text, isSpace c = true

theorem space_of_blank {text : Text} (h : Blank text) : Space text := by
  intro c hc
  simp only [isSpace, h c hc, Bool.true_or]

theorem exists_of_not_space {text : Text} (h : ¬Space text) :
    ∃ front c back, text = front ++ c :: back ∧ isSpace c = false := by
  simp only [Space, not_forall, Bool.not_eq_true] at h
  obtain ⟨c, hc, hspace⟩ := h
  obtain ⟨front, back, rfl⟩ := List.append_of_mem hc
  exact ⟨front, c, back, rfl, hspace⟩

theorem trimStart_of_space {text : Text} (h : Space text) : trimStart text = [] :=
  List.dropWhile_eq_nil_iff.mpr h

theorem trimEnd_of_space {text : Text} (h : Space text) : trimEnd text = [] := by
  rw [trimEnd, List.dropWhile_eq_nil_iff.mpr fun c hc => h c (List.mem_reverse.mp hc),
    List.reverse_nil]

theorem trim_of_space {text : Text} (h : Space text) : trim text = [] := by
  rw [trim, trimStart_of_space h]
  rfl

section Append

variable {c : Char} {front back lead trail text : Text}

theorem trimStart_append_cons (hc : isSpace c = false) :
    trimStart (front ++ c :: back) = trimStart front ++ c :: back :=
  dropWhile_append_mark hc front back

theorem trimEnd_append_cons (hc : isSpace c = false) :
    trimEnd (front ++ c :: back) = front ++ c :: trimEnd back := by
  have hreverse : (front ++ c :: back).reverse = back.reverse ++ c :: front.reverse := by simp
  have hstart : (back.reverse ++ c :: front.reverse).dropWhile isSpace =
      back.reverse.dropWhile isSpace ++ c :: front.reverse := trimStart_append_cons hc
  rw [trimEnd, hreverse, hstart, trimEnd]
  simp

theorem trim_append_cons (hc : isSpace c = false) :
    trim (front ++ c :: back) = trimStart front ++ c :: trimEnd back := by
  rw [trim, trimStart_append_cons hc, trimEnd_append_cons hc]

theorem trim_eq_nil_iff : trim text = [] ↔ Space text := by
  constructor
  · intro h
    by_contra htext
    obtain ⟨front, c, back, rfl, hc⟩ := exists_of_not_space htext
    rw [trim_append_cons hc] at h
    exact absurd h (by simp)
  · exact trim_of_space

theorem trim_cons (hc : isSpace c = false) : trim (c :: back) = c :: trimEnd back := by
  have htrim : trim ([] ++ c :: back) = trimStart [] ++ c :: trimEnd back := trim_append_cons hc
  exact htrim

theorem trimStart_append_of_space (h : Space lead) (text : Text) :
    trimStart (lead ++ text) = trimStart text :=
  List.dropWhile_append_of_pos h

theorem trimEnd_append_of_space (h : Space trail) (text : Text) :
    trimEnd (text ++ trail) = trimEnd text := by
  have hdrop : (trail.reverse ++ text.reverse).dropWhile isSpace = text.reverse.dropWhile isSpace :=
    List.dropWhile_append_of_pos fun c hc => h c (List.mem_reverse.mp hc)
  rw [trimEnd, List.reverse_append, hdrop, trimEnd]

theorem trim_pad_space (hlead : Space lead) (htrail : Space trail) (text : Text) :
    trim (lead ++ text ++ trail) = trim text := by
  by_cases htext : Space text
  · have hspace : Space (lead ++ text ++ trail) :=
      List.forall_mem_append.mpr ⟨List.forall_mem_append.mpr ⟨hlead, htext⟩, htrail⟩
    rw [trim_of_space hspace, trim_of_space htext]
  · obtain ⟨front, c, back, rfl, hc⟩ := exists_of_not_space htext
    have hsplit : lead ++ (front ++ c :: back) ++ trail = (lead ++ front) ++ c :: (back ++ trail) :=
      by simp
    rw [hsplit, trim_append_cons hc, trim_append_cons hc, trimStart_append_of_space hlead,
      trimEnd_append_of_space htrail]

theorem trim_pad (hlead : Blank lead) (htrail : Blank trail) (text : Text) :
    trim (lead ++ text ++ trail) = trim text :=
  trim_pad_space (space_of_blank hlead) (space_of_blank htrail) text

end Append

theorem length_trimEnd_le (text : Text) : (trimEnd text).length ≤ text.length := by
  rw [trimEnd, List.length_reverse]
  exact (List.dropWhile_suffix _).length_le.trans (Nat.le_of_eq List.length_reverse)

theorem length_trimStart_le (text : Text) : (trimStart text).length ≤ text.length :=
  (List.dropWhile_suffix _).length_le

/-- A text without white space at its ends. -/
abbrev Trimmed (text : Text) : Prop :=
  text.trim = text

theorem Trimmed.trim_pad {lead trail text : Text} (h : Trimmed text) (hlead : Blank lead)
    (htrail : Blank trail) : trim (lead ++ text ++ trail) = text :=
  (Text.trim_pad hlead htrail text).trans h

theorem Trimmed.head {c : Char} {text : Text} (h : Trimmed (c :: text)) : isSpace c = false := by
  rw [Bool.eq_false_iff]
  intro hc
  have hlength := congrArg List.length h
  rw [trim, trimStart, List.dropWhile_cons_of_pos hc, List.length_cons] at hlength
  have hend := length_trimEnd_le (trimStart text)
  have hstart := length_trimStart_le text
  rw [trimStart] at hend hstart
  omega

theorem Trimmed.not_isBlank {c : Char} {text : Text} (h : Trimmed (c :: text)) :
    isBlank c = false := by
  have hspace := h.head
  simp only [isSpace, Bool.or_eq_false_iff, and_assoc] at hspace
  exact hspace.1

theorem trimmed_of_forall {text : Text} (h : ∀ c ∈ text, isSpace c = false) : Trimmed text := by
  have hstart : ∀ text : Text, (∀ c ∈ text, isSpace c = false) → text.dropWhile isSpace = text :=
    fun text htext => by
      cases text with
      | nil => rfl
      | cons c text => exact List.dropWhile_cons_of_neg (by simp [htext c List.mem_cons_self])
  rw [Trimmed, trim, trimStart, hstart text h, trimEnd,
    hstart text.reverse fun c hc => h c (List.mem_reverse.mp hc), List.reverse_reverse]

theorem trimStart_trimStart (text : Text) : trimStart (trimStart text) = trimStart text :=
  List.dropWhile_idempotent _ _

theorem trimEnd_trimEnd (text : Text) : trimEnd (trimEnd text) = trimEnd text := by
  rw [trimEnd, trimEnd, List.reverse_reverse, List.dropWhile_idempotent]

theorem trim_trimEnd (text : Text) : trim (trimEnd text) = trim text := by
  by_cases htext : Space text
  · rw [trimEnd_of_space htext, trim_of_space htext]
    rfl
  · obtain ⟨front, c, back, rfl, hc⟩ := exists_of_not_space htext
    rw [trimEnd_append_cons hc, trim_append_cons hc, trim_append_cons hc, trimEnd_trimEnd]

theorem trim_trim (text : Text) : trim (trim text) = trim text := by
  calc trim (trim text) = trim (trimStart text) := trim_trimEnd _
    _ = trim text := by rw [trim, trimStart_trimStart, ← trim]

theorem trim_isPrefix_trimStart (text : Text) : trim text <+: trimStart text := by
  rw [trim, trimEnd, ← List.reverse_suffix, List.reverse_reverse]
  exact List.dropWhile_suffix _

theorem trim_isInfix (text : Text) : trim text <:+: text :=
  (trim_isPrefix_trimStart text).isInfix.trans (List.dropWhile_suffix _).isInfix

theorem exists_space_append_trim (text : Text) :
    ∃ lead, Space lead ∧ lead ++ trim text <+: text := by
  refine ⟨text.takeWhile isSpace, fun _ => List.mem_takeWhile_imp, ?_⟩
  have hprefix : text.takeWhile isSpace ++ trim text <+:
      text.takeWhile isSpace ++ text.dropWhile isSpace :=
    (List.prefix_append_right_inj _).mpr (trim_isPrefix_trimStart text)
  rwa [List.takeWhile_append_dropWhile] at hprefix

/-- A text is its trimmed part with white space around it. -/
theorem exists_pads (text : Text) :
    ∃ lead trail, Space lead ∧ Space trail ∧ text = lead ++ trim text ++ trail := by
  refine ⟨text.takeWhile isSpace, text.trimStart.rtakeWhile isSpace,
    fun _ => List.mem_takeWhile_imp, fun _ => List.mem_rtakeWhile_imp, ?_⟩
  have hend : trim text ++ text.trimStart.rtakeWhile isSpace = text.trimStart :=
    List.rdropWhile_append_rtakeWhile
  rw [List.append_assoc, hend]
  exact List.takeWhile_append_dropWhile.symm

theorem not_mem_trim {c : Char} {text : Text} (h : c ∉ text) : c ∉ trim text :=
  fun hmem => h ((trim_isInfix text).subset hmem)

end Text

end Stylesheet
