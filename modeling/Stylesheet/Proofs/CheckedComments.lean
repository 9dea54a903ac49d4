import Stylesheet.Sheet
import Stylesheet.Proofs.CheckedText
import Stylesheet.Proofs.RestingPlaces

/-!
# Checked lines and comments

The line and the comments of an offset, byte by byte. At no offset, be it beyond the end of the text
or inside a character, is the text misused, and what is found is the line and the comments that the
offset has.
-/

namespace Stylesheet.Checked

variable {text front ahead rest : Text} {offset fuel : Nat}

/-! ### Lines -/

def lineNumber (text : Text) (offset : Nat) : Checked Nat := do
  let bytes ← byteSlice text 0 (min offset text.byteSize)
  return bytes.count '\n'.toUInt8 + 1

theorem lineNumber_eq (text : Text) (offset : Nat) :
    lineNumber text offset = .ok (text.lineNumber offset) := by
  have hbytes : byteSlice text 0 (min offset text.byteSize) =
      .ok ((text.utf8.take (min offset text.byteSize)).drop 0) :=
    byteSlice_of_le (Nat.zero_le _) (Nat.min_le_right _ _)
  rw [lineNumber, hbytes, List.drop_zero, ← Text.length_utf8, ← List.take_eq_take_min]
  change Except.ok _ = _
  rw [Text.count_feed_take, Text.lineNumber]

/-! ### Comments -/

/-- Moves back over blank bytes. -/
def skipSpaceBack (text : Text) : (offset : Nat) → Checked Nat
  | 0 => .ok 0
  | offset + 1 => do
      if Text.isBlankByte (← byteAt text offset) then skipSpaceBack text offset
      else return offset + 1

/-- Whether a byte may stand between a comment and what follows it. -/
def allowsByte (adjacency : Adjacency) (b : UInt8) : Bool :=
  match adjacency with
  | .strict => Text.isBlankByte b && b ≠ '\x0c'.toUInt8
  | .loose => Text.isBlankByte b

/-- The comments that end at an offset, nearest first. -/
def commentsBack (text : Text) (adjacency : Adjacency) : (fuel boundary : Nat) → Checked (List Text)
  | 0, _ => .error .stalled
  | fuel + 1, boundary => do
      let stop ← skipSpaceBack text boundary
      if !(Text.utf8 "*/".toList).isSuffixOf (← byteSlice text 0 stop) then return []
      let close ← minus stop 2
      match rfind? "/*".toList (← sliceTo text close) with
      | none => return []
      | some start =>
          if !(← byteSlice text stop boundary).all (allowsByte adjacency) then return []
          let body ← slice text (start + 2) close
          return Comment.normalize body :: (← commentsBack text adjacency fuel start)

def attachedComments (text : Text) (offset : Nat) (adjacency : Adjacency) :
    Checked (Option (List Text)) := do
  match ← commentsBack text adjacency (text.byteSize + 1) (min offset text.byteSize) with
  | [] => return none
  | nearest :: others => return some (nearest :: others).reverse

theorem allowsByte_eq {adjacency : Adjacency} {c : Char} {b : UInt8}
    (hb : b ∈ String.utf8EncodeChar c) : allowsByte adjacency b = adjacency.allows c := by
  have hblank := Text.isBlankByte_eq hb
  have hfeed : decide (b = '\x0c'.toUInt8) = decide (c = '\x0c') :=
    decide_eq_decide.mpr (Text.byte_eq_iff (by decide) hb)
  cases adjacency with
  | strict =>
      rw [allowsByte, Adjacency.allows, hblank]
      simp only [ne_eq, decide_not, hfeed]
  | loose => exact hblank

theorem utf8Size_of_isBlank {c : Char} (h : isBlank c = true) : c.utf8Size = 1 := by
  simp only [isBlank, Bool.or_eq_true, decide_eq_true_eq] at h
  rcases h with ((((rfl | rfl) | rfl) | rfl) | rfl) | rfl <;> rfl

/-- The blanks before an offset are passed over. -/
theorem exists_skipSpaceBack (htext : text = front ++ rest) :
    ∃ kept blanks, front = kept ++ blanks ∧ Blank blanks ∧ (∀ c ∈ kept.getLast?, isBlank c = false) ∧
      skipSpaceBack text front.byteSize = .ok (Text.byteSize kept) := by
  induction front using List.reverseRecOn generalizing rest with
  | nil => exact ⟨[], [], rfl, List.forall_mem_nil _, by simp, rfl⟩
  | append_singleton front c ih =>
      obtain ⟨n, hn⟩ : ∃ n, Text.byteSize (front ++ [c]) = n + 1 := by
        have hsize : 0 < c.utf8Size := c.utf8Size_pos
        refine Nat.exists_eq_succ_of_ne_zero ?_
        rw [Text.byteSize_append, Text.byteSize]
        omega
      obtain ⟨b, hb, hbyte⟩ := exists_byteAt_back htext hn.symm
      have hblankByte := Text.isBlankByte_eq hb
      have hskip : skipSpaceBack text (n + 1) =
          if isBlank c then skipSpaceBack text n else .ok (n + 1) := by
        rw [skipSpaceBack, hbyte]
        simp only [bind, Except.bind, hblankByte]
        rfl
      rw [hn, hskip]
      by_cases hblank : isBlank c = true
      · have hsize : n = Text.byteSize front := by
          rw [Text.byteSize_append, Text.byteSize, utf8Size_of_isBlank hblank, Text.byteSize] at hn
          omega
        have hfront : text = front ++ ([c] ++ rest) := by rw [htext, List.append_assoc]
        obtain ⟨kept, blanks, rfl, hblanks, hlast, hkept⟩ := ih hfront
        refine ⟨kept, blanks ++ [c], List.append_assoc _ _ _, ?_, hlast, ?_⟩
        · exact hblanks.append (List.forall_mem_singleton.mpr hblank)
        · rw [if_pos hblank, hsize, hkept]
      · refine ⟨front ++ [c], [], (List.append_nil _).symm, List.forall_mem_nil _, ?_, ?_⟩
        · intro d hd
          rw [List.getLast?_concat] at hd
          rw [← Option.some.inj hd]
          exact Bool.eq_false_iff.mpr hblank
        · rw [if_neg hblank, hn]

section ReadBack

variable {adjacency : Adjacency}

theorem readBack_blanks {blanks : Text} (hblanks : Blank blanks) (before : Text) :
    adjacency.readBack none (blanks.reverse ++ before) =
      if blanks.all adjacency.allows then adjacency.readBack none before else [] := by
  induction blanks using List.reverseRecOn with
  | nil => rfl
  | append_singleton blanks c ih =>
      have hc : isBlank c = true := hblanks c (List.mem_append_right blanks List.mem_cons_self)
      have hslash : c ≠ '/' := by
        rintro rfl
        exact absurd hc (by decide)
      rw [List.reverse_append, List.reverse_singleton, List.singleton_append, List.cons_append,
        Adjacency.readBack_outside fun heq => absurd heq hslash,
        ih fun d hd => hblanks d (List.mem_append_left [c] hd), List.all_append]
      cases hallows : adjacency.allows c with
      | true => simp [hallows]
      | false => simp [hallows]

theorem readBack_closed (inner : Text) :
    adjacency.readBack none (inner ++ "*/".toList).reverse =
      adjacency.readBack (some []) inner.reverse := by
  rw [List.reverse_append]
  exact Adjacency.readBack.eq_1 adjacency inner.reverse

theorem readBack_unopened {inner : Text} (hopener : ¬['/', '*'] <:+: inner) :
    adjacency.readBack none (inner ++ "*/".toList).reverse = [] := by
  rw [readBack_closed]
  exact Adjacency.readBack_eq_nil (fun hpart => hopener (List.reverse_infix.mp hpart)) _

end ReadBack

theorem isSuffixOf_closer (kept : Text) :
    (Text.utf8 "*/".toList).isSuffixOf kept.utf8 = decide ("*/".toList <:+ kept) := by
  rw [Bool.eq_iff_iff, List.isSuffixOf_iff_suffix, decide_eq_true_eq]
  exact Text.utf8_suffix_iff rfl

section Turn

variable {kept inner blanks : Text}

theorem byteSlice_kept (htext : text = kept ++ rest) :
    byteSlice text 0 kept.byteSize = .ok kept.utf8 := by
  have hwhole : text = [] ++ (kept ++ rest) := htext
  exact byteSlice_of_eq hwhole rfl (Nat.zero_add _).symm

/-- Without a closer before the blanks the loop ends. -/
theorem commentsBack_unclosed (adjacency : Adjacency) (fuel : Nat)
    (htext : text = kept ++ (blanks ++ rest))
    (hskip : skipSpaceBack text (Text.byteSize (kept ++ blanks)) = .ok kept.byteSize)
    (hcloser : ¬"*/".toList <:+ kept) :
    commentsBack text adjacency (fuel + 1) (Text.byteSize (kept ++ blanks)) = .ok [] := by
  rw [commentsBack, hskip]
  simp only [bind, Except.bind, byteSlice_kept htext, isSuffixOf_closer, hcloser, decide_false,
    Bool.not_false, if_true]
  rfl

/-- With a closer before the blanks the loop looks for the opener. -/
theorem commentsBack_closed (adjacency : Adjacency) (fuel : Nat)
    (htext : text = inner ++ "*/".toList ++ (blanks ++ rest))
    (hskip : skipSpaceBack text (Text.byteSize (inner ++ "*/".toList ++ blanks)) =
      .ok (Text.byteSize (inner ++ "*/".toList))) :
    commentsBack text adjacency (fuel + 1) (Text.byteSize (inner ++ "*/".toList ++ blanks)) =
      match rfind? "/*".toList inner with
      | none => .ok []
      | some start =>
          if blanks.all adjacency.allows then do
            let body ← slice text (start + 2) inner.byteSize
            return Comment.normalize body :: (← commentsBack text adjacency fuel start)
          else .ok [] := by
  have hclose : minus (Text.byteSize (inner ++ "*/".toList)) 2 = .ok inner.byteSize := by
    have hsize : Text.byteSize (inner ++ "*/".toList) = inner.byteSize + 2 :=
      Text.byteSize_append _ _
    rw [hsize, minus_of_le (Nat.le_add_left _ _), Nat.add_sub_cancel]
  have hinner : sliceTo text inner.byteSize = .ok inner :=
    sliceTo_of_eq (htext.trans (List.append_assoc _ _ _)) rfl
  have hgap : byteSlice text (Text.byteSize (inner ++ "*/".toList))
      (Text.byteSize (inner ++ "*/".toList ++ blanks)) = .ok blanks.utf8 :=
    byteSlice_of_eq htext rfl (Text.byteSize_append _ _)
  have hallows : blanks.utf8.all (allowsByte adjacency) = blanks.all adjacency.allows :=
    Text.all_utf8 (fun _ _ hb => allowsByte_eq hb) blanks
  rw [commentsBack, hskip]
  simp only [bind, Except.bind, byteSlice_kept htext, isSuffixOf_closer, List.suffix_append,
    decide_true, Bool.not_true, Bool.false_eq_true, if_false, hclose, hinner, hgap, hallows]
  cases rfind? "/*".toList inner with
  | none => rfl
  | some start => cases blanks.all adjacency.allows <;> rfl

end Turn

/-- The loop finds what reading the text back finds. -/
theorem commentsBack_eq (adjacency : Adjacency) (htext : text = front ++ rest)
    (hfuel : front.length < fuel) :
    commentsBack text adjacency fuel front.byteSize =
      .ok (adjacency.readBack none front.reverse) := by
  induction fuel generalizing front rest with
  | zero => exact absurd hfuel (Nat.not_lt_zero _)
  | succ fuel ih =>
      obtain ⟨kept, blanks, rfl, hblanks, hlast, hskip⟩ := exists_skipSpaceBack htext
      have hsplit : text = kept ++ (blanks ++ rest) := by rw [htext, List.append_assoc]
      rw [List.reverse_append, readBack_blanks hblanks]
      by_cases hcloser : "*/".toList <:+ kept
      · obtain ⟨inner, rfl⟩ := hcloser
        rw [commentsBack_closed adjacency fuel hsplit hskip]
        by_cases hopener : ['/', '*'] <:+: inner
        · obtain ⟨passed, body, rfl, hbody⟩ := exists_last_pair hopener
          have hstart : rfind? "/*".toList (passed ++ '/' :: '*' :: body) = some passed.byteSize :=
            rfind?_last (by decide) hbody passed
          have hslice : slice text (passed.byteSize + 2)
              (Text.byteSize (passed ++ '/' :: '*' :: body)) = .ok body := by
            have hpiece : text =
                (passed ++ ['/', '*']) ++ (body ++ ("*/".toList ++ (blanks ++ rest))) := by
              rw [hsplit]
              simp
            refine slice_eq_ok_iff.mpr ⟨_, _, hpiece, ?_, ?_⟩
            · exact (Text.byteSize_append passed ['/', '*']).symm
            · rw [← Text.byteSize_append, List.append_assoc]
              rfl
          have hrest : commentsBack text adjacency fuel passed.byteSize =
              .ok (adjacency.readBack none passed.reverse) := by
            have hpassed : text =
                passed ++ ('/' :: '*' :: body ++ "*/".toList ++ (blanks ++ rest)) := by
              rw [hsplit]
              simp
            refine ih hpassed ?_
            simp only [List.length_append, List.length_cons] at hfuel
            omega
          have hreverse : (passed ++ '/' :: '*' :: body ++ "*/".toList).reverse =
              '/' :: '*' :: (body.reverse ++ '*' :: '/' :: passed.reverse) := by simp
          rw [hstart, hreverse, Adjacency.readBack_comment hbody]
          simp only [hslice, hrest]
          cases blanks.all adjacency.allows <;> rfl
        · have hnone : rfind? "/*".toList inner = none := rfind?_eq_none hopener
          rw [hnone, readBack_unopened hopener, ite_self]
      · rw [commentsBack_unclosed adjacency fuel hsplit hskip hcloser,
          Adjacency.readBack_unclosed hlast hcloser, ite_self]

/-- Inside a character no comment ends. -/
theorem commentsBack_inside {bytes more : List UInt8} {b : UInt8} (adjacency : Adjacency)
    (hbytes : text.utf8 = bytes ++ b :: more) (hb : 128 ≤ b.toNat) (fuel : Nat) :
    commentsBack text adjacency (fuel + 1) (bytes.length + 1) = .ok [] := by
  have hother : ∀ {m : Char}, Text.isAscii m = true → b ≠ m.toUInt8 := by
    rintro m hm rfl
    rw [Text.toNat_toUInt8 hm] at hb
    have hsmall : m.val.toNat ≤ 127 := of_decide_eq_true hm
    omega
  have hblank : Text.isBlankByte b = false := by
    have hmark : ∀ {m : Char}, Text.isAscii m = true → decide (b = m.toUInt8) = false :=
      fun hm => decide_eq_false (hother hm)
    rw [Text.isBlankByte, hmark (by decide), hmark (by decide), hmark (by decide),
      hmark (by decide), hmark (by decide), hmark (by decide)]
    rfl
  have hskip : skipSpaceBack text (bytes.length + 1) = .ok (bytes.length + 1) := by
    rw [skipSpaceBack, byteAt_of_eq hbytes rfl]
    simp only [bind, Except.bind, hblank]
    rfl
  have hsize : bytes.length + 1 ≤ text.byteSize := by
    rw [← Text.length_utf8, hbytes, List.length_append, List.length_cons]
    omega
  have hslice : byteSlice text 0 (bytes.length + 1) = .ok (bytes ++ [b]) := by
    have htake : text.utf8.take (bytes.length + 1) = bytes ++ [b] := by
      rw [hbytes, List.take_length_add_append]
      rfl
    rw [byteSlice_of_le (Nat.zero_le _) hsize, htake, List.drop_zero]
  have hcloser : (Text.utf8 "*/".toList).isSuffixOf (bytes ++ [b]) = false := by
    have hword : Text.utf8 "*/".toList = ['*'.toUInt8] ++ ['/'.toUInt8] := rfl
    rw [Bool.eq_false_iff, ne_eq, List.isSuffixOf_iff_suffix, hword, Text.concat_suffix_iff]
    exact fun hsuffix => hother (by decide) hsuffix.2.symm
  rw [commentsBack, hskip]
  simp only [bind, Except.bind, hslice, hcloser, Bool.not_false, if_true]
  rfl

theorem attachedComments_eq (text : Text) (offset : Nat) (adjacency : Adjacency) :
    attachedComments text offset adjacency =
      .ok (Stylesheet.attachedComments text offset adjacency) := by
  have hoffset : min offset text.byteSize ≤ text.byteSize := Nat.min_le_right _ _
  rw [attachedComments, Stylesheet.attachedComments]
  cases hsplit : text.splitAtByte (min offset text.byteSize) with
  | none =>
      obtain ⟨bytes, b, more, hbytes, hlength, hb⟩ :=
        Text.exists_of_splitAtByte_eq_none hsplit hoffset
      rw [hlength, commentsBack_inside adjacency hbytes hb]
      rfl
  | some cut =>
      obtain ⟨front, rest⟩ := cut
      obtain ⟨htext, hsize⟩ := Text.splitAtByte_eq_some_iff.mp hsplit
      have hfuel : front.length < text.byteSize + 1 := by
        have hlength := Text.length_le_byteSize front
        omega
      rw [← hsize, commentsBack_eq adjacency htext hfuel]
      simp only [bind, Except.bind, Adjacency.attached]
      cases adjacency.readBack none front.reverse <;> rfl

/-- What is found at an offset as a record. -/
def recordAt {α : Type} (text : Text) (offset : Nat) (adjacency : Adjacency) (content : α) :
    Checked (Record α) := do
  let comment ← attachedComments text offset adjacency
  let line ← lineNumber text offset
  return ⟨comment, line, content⟩

theorem recordAt_eq {α : Type} (htext : text = front ++ ahead) (hoffset : offset = front.byteSize)
    (adjacency : Adjacency) (content : α) :
    recordAt text offset adjacency content = .ok (Site.record adjacency ⟨front.reverse, content⟩) := by
  rw [recordAt, attachedComments_eq, lineNumber_eq, htext, hoffset, attachedComments_append,
    Text.lineNumber_append, Site.record, Site.line, List.count_reverse]
  rfl

end Stylesheet.Checked
