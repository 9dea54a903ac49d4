import Mathlib.Data.List.Basic
import Mathlib.Data.List.Infix
import Stylesheet.Comment
import Stylesheet.Proofs.ByteOffsets

/-!
# Bytes

The UTF-8 form of a text. An ASCII character is a byte of its own and no other character has a byte
below 128, so what is found out about ASCII characters by looking at bytes holds of the characters.
-/

namespace Stylesheet.Text

/-- The bytes of the UTF-8 form. -/
def utf8 (text : Text) : List UInt8 :=
  text.flatMap String.utf8EncodeChar

def isAscii (c : Char) : Bool :=
  c.val.toNat ≤ 127

variable {c m : Char} {b : UInt8} {text word : Text} {bytes behind : List UInt8}

theorem utf8_cons (c : Char) (text : Text) :
    utf8 (c :: text) = String.utf8EncodeChar c ++ utf8 text :=
  List.flatMap_cons

theorem utf8_append (front rest : Text) : utf8 (front ++ rest) = utf8 front ++ utf8 rest :=
  List.flatMap_append

theorem length_utf8 (text : Text) : (utf8 text).length = byteSize text := by
  induction text with
  | nil => rfl
  | cons c text ih =>
      rw [utf8_cons, List.length_append, String.length_utf8EncodeChar, ih, byteSize]

/-- The first byte of a text is one of its first character. -/
theorem exists_utf8_cons (c : Char) (text : Text) :
    ∃ b ∈ String.utf8EncodeChar c, ∃ bytes, utf8 (c :: text) = b :: bytes := by
  obtain ⟨b, bytes, hbytes⟩ : ∃ b bytes, String.utf8EncodeChar c = b :: bytes :=
    List.exists_cons_of_ne_nil String.utf8EncodeChar_ne_nil
  refine ⟨b, hbytes ▸ List.mem_cons_self, bytes ++ utf8 text, ?_⟩
  rw [utf8_cons, hbytes, List.cons_append]

/-- The last byte of a text is one of its last character. -/
theorem exists_utf8_concat (front : Text) (c : Char) :
    ∃ b ∈ String.utf8EncodeChar c, ∃ bytes, utf8 (front ++ [c]) = bytes ++ [b] := by
  obtain ⟨bytes, b, hbytes⟩ : ∃ bytes b, String.utf8EncodeChar c = bytes ++ [b] :=
    (List.eq_nil_or_concat' _).resolve_left String.utf8EncodeChar_ne_nil
  have hlast : utf8 [c] = bytes ++ [b] := by
    rw [utf8_cons, hbytes]
    exact List.append_nil _
  refine ⟨b, hbytes ▸ List.mem_concat_self, utf8 front ++ bytes, ?_⟩
  rw [utf8_append, hlast, List.append_assoc]

theorem utf8EncodeChar_of_isAscii (h : isAscii c = true) :
    String.utf8EncodeChar c = [c.toUInt8] := by
  have hsmall : c.val.toNat ≤ 127 := of_decide_eq_true h
  have hsize : c.utf8Size = 1 := Char.utf8Size_eq_one_iff.mpr (UInt32.le_iff_toNat_le.mpr hsmall)
  exact String.utf8EncodeChar_eq_singleton hsize

theorem toNat_toUInt8 (h : isAscii c = true) : c.toUInt8.toNat = c.val.toNat := by
  have hsmall : c.val.toNat ≤ 127 := of_decide_eq_true h
  rw [Char.toUInt8, UInt32.toNat_toUInt8]
  omega

/-- The bytes of a character beyond ASCII are beyond ASCII. -/
theorem large_of_mem_utf8EncodeChar (hc : isAscii c = false) :
    ∀ b ∈ String.utf8EncodeChar c, 128 ≤ b.toNat := by
  have hlarge : ¬c.val.toNat ≤ 127 := of_decide_eq_false hc
  have hbyte : ∀ {n : Nat}, 128 ≤ n → n < 256 → 128 ≤ (UInt8.ofNat n).toNat := by
    intro n hlower hupper
    rw [UInt8.toNat_ofNat']
    omega
  have htail : ∀ n : Nat, 128 ≤ (UInt8.ofNat (n % 64 + 128)).toNat := fun n =>
    hbyte (by omega) (by omega)
  rw [String.utf8EncodeChar, if_neg hlarge]
  split
  · rw [List.forall_mem_cons, List.forall_mem_singleton]
    exact ⟨hbyte (by omega) (by omega), htail _⟩
  split
  · rw [List.forall_mem_cons, List.forall_mem_cons, List.forall_mem_singleton]
    exact ⟨hbyte (by omega) (by omega), htail _, htail _⟩
  · rw [List.forall_mem_cons, List.forall_mem_cons, List.forall_mem_cons,
      List.forall_mem_singleton]
    exact ⟨hbyte (by omega) (by omega), htail _, htail _, htail _⟩

/-- A byte of a character is that of an ASCII character only if it is this character. -/
theorem byte_eq_iff (hm : isAscii m = true) (hb : b ∈ String.utf8EncodeChar c) :
    b = m.toUInt8 ↔ c = m := by
  have hmark : m.toUInt8.toNat = m.val.toNat := toNat_toUInt8 hm
  cases hc : isAscii c with
  | true =>
      rw [utf8EncodeChar_of_isAscii hc, List.mem_singleton] at hb
      rw [hb]
      constructor
      · intro heq
        have hval : c.val.toNat = m.val.toNat := by
          rw [← toNat_toUInt8 hc, heq, hmark]
        exact Char.ext (UInt32.toNat_inj.mp hval)
      · rintro rfl
        rfl
  | false =>
      have hlarge := large_of_mem_utf8EncodeChar hc b hb
      have hsmall : m.val.toNat ≤ 127 := of_decide_eq_true hm
      constructor
      · rintro rfl
        omega
      · rintro rfl
        exact absurd (hc.symm.trans hm) Bool.false_ne_true

theorem mem_utf8_iff (hm : isAscii m = true) : m.toUInt8 ∈ utf8 text ↔ m ∈ text := by
  constructor
  · intro h
    obtain ⟨c, hc, hb⟩ := List.mem_flatMap.mp h
    exact (byte_eq_iff hm hb).mp rfl ▸ hc
  · intro h
    refine List.mem_flatMap.mpr ⟨m, h, ?_⟩
    rw [utf8EncodeChar_of_isAscii hm]
    exact List.mem_cons_self

/-! ### Blanks -/

def isBlankByte (b : UInt8) : Bool :=
  b = ' '.toUInt8 || b = '\t'.toUInt8 || b = '\n'.toUInt8 || b = '\x0b'.toUInt8 ||
    b = '\x0c'.toUInt8 || b = '\r'.toUInt8

theorem isBlankByte_eq (hb : b ∈ String.utf8EncodeChar c) : isBlankByte b = isBlank c := by
  have hmark : ∀ {m : Char}, isAscii m = true → decide (b = m.toUInt8) = decide (c = m) :=
    fun hm => decide_eq_decide.mpr (byte_eq_iff hm hb)
  rw [isBlankByte, isBlank, hmark (by decide), hmark (by decide), hmark (by decide),
    hmark (by decide), hmark (by decide), hmark (by decide)]

/-- What is asked of every byte is asked of every character. -/
theorem all_utf8 {p : UInt8 → Bool} {q : Char → Bool}
    (h : ∀ c, ∀ b ∈ String.utf8EncodeChar c, p b = q c) (text : Text) :
    (utf8 text).all p = text.all q := by
  induction text with
  | nil => rfl
  | cons c text ih =>
      have hfirst : (String.utf8EncodeChar c).all p = q c := by
        cases hq : q c with
        | true =>
            rw [List.all_eq_true]
            exact fun b hb => (h c b hb).trans hq
        | false =>
            obtain ⟨b, hb⟩ : ∃ b, b ∈ String.utf8EncodeChar c :=
              List.exists_mem_of_ne_nil _ String.utf8EncodeChar_ne_nil
            rw [List.all_eq_false]
            exact ⟨b, hb, by simp [h c b hb, hq]⟩
      rw [utf8_cons, List.all_append, hfirst, ih, List.all_cons]

/-! ### Words -/

/-- A word begins the bytes of a text exactly if it begins the text. -/
theorem utf8_prefix_iff : utf8 word <+: utf8 text ↔ word <+: text := by
  have hencode : ∀ text : Text, List.utf8Encode text = (utf8 text).toByteArray := fun _ => rfl
  constructor
  · rintro ⟨bytes, hbytes⟩
    refine List.isPrefix_of_utf8Encode_append_eq_utf8Encode bytes.toByteArray ?_
    rw [hencode, hencode, ← hbytes, List.toByteArray_append]
  · rintro ⟨rest, rfl⟩
    rw [utf8_append]
    exact List.prefix_append _ _

theorem concat_suffix_iff {α : Type} {front back : List α} {x y : α} :
    front ++ [x] <:+ back ++ [y] ↔ front <:+ back ∧ x = y := by
  rw [List.suffix_append_inj_of_length_eq (by rfl : [x].length = [y].length), List.singleton_inj]

/-- An ASCII word ends the bytes of a text if it ends the text. -/
theorem utf8_suffix_iff (hword : word.all isAscii = true) :
    utf8 word <:+ utf8 text ↔ word <:+ text := by
  induction word using List.reverseRecOn generalizing text with
  | nil => simp [utf8]
  | append_singleton word m ih =>
      rw [List.all_append, List.all_cons, List.all_nil, Bool.and_true, Bool.and_eq_true] at hword
      obtain ⟨hrest, hm⟩ := hword
      have hmark : utf8 [m] = [m.toUInt8] := by
        rw [utf8_cons, utf8EncodeChar_of_isAscii hm]
        rfl
      rw [utf8_append, hmark]
      rcases List.eq_nil_or_concat text with rfl | ⟨front, c, rfl⟩
      · simp [utf8]
      · rw [List.concat_eq_append]
        by_cases hc : c = m
        · subst hc
          rw [utf8_append, hmark, concat_suffix_iff, concat_suffix_iff, ih hrest]
          simp
        · obtain ⟨b, hmem, bytes, hlast⟩ := exists_utf8_concat front c
          have hb : b ≠ m.toUInt8 := fun heq => hc ((byte_eq_iff hm hmem).mp heq)
          rw [hlast, concat_suffix_iff, concat_suffix_iff]
          simp [Ne.symm hb, Ne.symm hc]

/-- The bytes of a text are parted between two characters wherever an ASCII byte follows. -/
theorem exists_of_utf8_eq_append (h : utf8 text = bytes ++ behind)
    (hnext : ∀ b ∈ behind.head?, b.toNat < 128) :
    ∃ front rest, text = front ++ rest ∧ utf8 front = bytes ∧ utf8 rest = behind := by
  induction text generalizing bytes with
  | nil =>
      obtain ⟨rfl, rfl⟩ := List.append_eq_nil_iff.mp h.symm
      exact ⟨[], [], rfl, rfl, rfl⟩
  | cons c text ih =>
      rw [utf8_cons] at h
      rcases List.append_eq_append_iff.mp h with ⟨later, rfl, hlater⟩ | ⟨inner, hchar, hbehind⟩
      · obtain ⟨front, rest, rfl, rfl, rfl⟩ := ih hlater
        exact ⟨c :: front, rest, rfl, utf8_cons c front, rfl⟩
      cases inner with
      | nil =>
          have hbytes : utf8 [c] = bytes := by
            rw [utf8_cons, hchar, List.append_nil]
            exact List.append_nil bytes
          exact ⟨[c], text, rfl, hbytes, hbehind.symm⟩
      | cons b inner =>
          -- The character has a byte below 128, so it has no other byte.
          have hsmall : b.toNat < 128 := hnext b (by rw [hbehind]; rfl)
          have hascii : isAscii c = true := by
            by_contra hlarge
            have hbyte := large_of_mem_utf8EncodeChar (Bool.eq_false_iff.mpr hlarge) b
              (hchar ▸ List.mem_append_right bytes List.mem_cons_self)
            omega
          rw [utf8EncodeChar_of_isAscii hascii] at hchar
          obtain rfl : bytes = [] := by
            have hlength := congrArg List.length hchar
            simp only [List.length_append, List.length_cons, List.length_nil] at hlength
            exact List.eq_nil_of_length_eq_zero (by omega)
          exact ⟨[], c :: text, rfl, rfl, (utf8_cons c text).trans h⟩

theorem toNat_lt_of_mem_utf8 (hword : word.all isAscii = true) (hb : b ∈ utf8 word) :
    b.toNat < 128 := by
  obtain ⟨c, hc, hb⟩ := List.mem_flatMap.mp hb
  have hascii : isAscii c = true := List.all_eq_true.mp hword c hc
  rw [utf8EncodeChar_of_isAscii hascii, List.mem_singleton] at hb
  have hsmall : c.val.toNat ≤ 127 := of_decide_eq_true hascii
  rw [hb, toNat_toUInt8 hascii]
  omega

/-- Where the bytes of an ASCII word stand among the bytes of a text, the word stands in the text. -/
theorem exists_of_utf8_eq_append_word (hword : word.all isAscii = true) (hne : word ≠ [])
    (h : utf8 text = bytes ++ (utf8 word ++ behind)) :
    ∃ front rest, text = front ++ (word ++ rest) ∧ utf8 front = bytes ∧ utf8 rest = behind := by
  have hbytes : utf8 word ≠ [] := by
    intro hnil
    have hprefix : word <+: [] := utf8_prefix_iff.mp (hnil ▸ List.nil_prefix)
    exact hne (List.prefix_nil.mp hprefix)
  obtain ⟨front, ahead, rfl, hfront, hahead⟩ := exists_of_utf8_eq_append h fun b hb => by
    rw [List.head?_append_of_ne_nil _ hbytes] at hb
    exact toNat_lt_of_mem_utf8 hword (List.mem_of_mem_head? hb)
  obtain ⟨rest, rfl⟩ : word <+: ahead := utf8_prefix_iff.mp ⟨behind, hahead.symm⟩
  rw [utf8_append] at hahead
  exact ⟨front, rest, rfl, hfront, List.append_cancel_left hahead⟩

theorem utf8_infix_iff (hword : word.all isAscii = true) (hne : word ≠ []) :
    utf8 word <:+: utf8 text ↔ word <:+: text := by
  constructor
  · rintro ⟨bytes, behind, h⟩
    rw [List.append_assoc] at h
    obtain ⟨front, rest, rfl, -⟩ := exists_of_utf8_eq_append_word hword hne h.symm
    exact ⟨front, rest, List.append_assoc _ _ _⟩
  · rintro ⟨front, rest, rfl⟩
    rw [utf8_append, utf8_append]
    exact List.infix_append _ _ _

/-! ### Offsets -/

/-- Where no cut is possible the byte before the offset belongs to no ASCII character. -/
theorem exists_of_splitAtByte_eq_none {offset : Nat} (h : splitAtByte offset text = none)
    (hoffset : offset ≤ byteSize text) :
    ∃ bytes b rest, utf8 text = bytes ++ b :: rest ∧ offset = bytes.length + 1 ∧
      128 ≤ b.toNat := by
  fun_induction splitAtByte offset text with
  | case1 => contradiction
  | case2 offset => exact absurd hoffset (Nat.not_succ_le_zero offset)
  | case3 offset c text hfits ih =>
      have hrest : offset + 1 - c.utf8Size ≤ byteSize text := by
        rw [byteSize] at hoffset
        omega
      obtain ⟨bytes, b, rest, hbytes, hlength, hb⟩ := ih (Option.map_eq_none_iff.mp h) hrest
      refine ⟨String.utf8EncodeChar c ++ bytes, b, rest, ?_, ?_, hb⟩
      · rw [utf8_cons, hbytes, List.append_assoc]
      · rw [List.length_append, String.length_utf8EncodeChar]
        omega
  | case4 offset c text hfits =>
      have hlength : offset < (String.utf8EncodeChar c).length := by
        rw [String.length_utf8EncodeChar]
        omega
      have hascii : isAscii c = false := by
        rw [Bool.eq_false_iff]
        intro hascii
        have hsize := String.length_utf8EncodeChar c
        rw [utf8EncodeChar_of_isAscii hascii, List.length_singleton] at hsize
        omega
      refine ⟨(String.utf8EncodeChar c).take offset, (String.utf8EncodeChar c)[offset],
        (String.utf8EncodeChar c).drop (offset + 1) ++ utf8 text, ?_, ?_, ?_⟩
      · rw [utf8_cons, ← List.cons_append, ← List.append_assoc, List.getElem_cons_drop,
          List.take_append_drop]
      · rw [List.length_take_of_le (Nat.le_of_lt hlength)]
      · exact large_of_mem_utf8EncodeChar hascii _ (List.getElem_mem hlength)

/-- A cut is possible exactly behind the text whose bytes are those before the offset. -/
theorem exists_splitAtByte_iff {front : Text} {offset : Nat} :
    (∃ rest, splitAtByte (min offset (byteSize text)) text = some (front, rest)) ↔
      utf8 front = (utf8 text).take offset := by
  rw [List.take_eq_take_min, length_utf8]
  constructor
  · rintro ⟨rest, hcut⟩
    obtain ⟨htext, hsize⟩ := splitAtByte_eq_some_iff.mp hcut
    rw [← hsize, htext, utf8_append, ← length_utf8, List.take_left]
  · intro hfront
    have hprefix : utf8 front <+: utf8 text := hfront ▸ List.take_prefix _ _
    obtain ⟨rest, hrest⟩ := utf8_prefix_iff.mp hprefix
    have hsize : byteSize front = min offset (byteSize text) := by
      rw [← length_utf8, hfront, List.length_take, length_utf8]
      omega
    exact ⟨rest, splitAtByte_eq_some_iff.mpr ⟨hrest.symm, hsize⟩⟩

/-- The line feeds among the first bytes are those of the characters that end there. -/
theorem count_feed_take (offset : Nat) (text : Text) :
    ((utf8 text).take offset).count '\n'.toUInt8 = (takeBytes offset text).count '\n' := by
  have hascii : isAscii '\n' = true := by decide
  fun_induction takeBytes offset text with
  | case1 => simp [utf8]
  | case2 offset c text hfits ih =>
      have hlength : (String.utf8EncodeChar c).length ≤ offset := by
        rwa [String.length_utf8EncodeChar]
      have hfirst : (String.utf8EncodeChar c).count '\n'.toUInt8 = [c].count '\n' := by
        by_cases hc : c = '\n'
        · rw [hc, utf8EncodeChar_of_isAscii hascii, List.count_singleton_self,
            List.count_singleton_self]
        · rw [List.count_eq_zero.mpr fun hmem => hc ((byte_eq_iff hascii hmem).mp rfl),
            List.count_eq_zero.mpr fun hmem => hc (List.mem_singleton.mp hmem).symm]
      rw [utf8_cons, List.take_append, List.take_of_length_le hlength, List.count_append, hfirst,
        String.length_utf8EncodeChar, ih, ← List.count_append, List.singleton_append]
  | case3 offset c text hfits =>
      have hlength : offset ≤ (String.utf8EncodeChar c).length := by
        rw [String.length_utf8EncodeChar]
        omega
      have hother : '\n'.toUInt8 ∉ (String.utf8EncodeChar c).take offset := by
        intro hmem
        have hc : c = '\n' := (byte_eq_iff hascii (List.mem_of_mem_take hmem)).mp rfl
        have hsize : 1 = c.utf8Size := by
          rw [← String.length_utf8EncodeChar, hc, utf8EncodeChar_of_isAscii hascii,
            List.length_singleton]
        rw [Nat.lt_one_iff.mp (by omega : offset < 1)] at hmem
        exact List.not_mem_nil hmem
      rw [utf8_cons, List.take_append_of_le_length hlength, List.count_eq_zero.mpr hother]
      rfl

end Stylesheet.Text
