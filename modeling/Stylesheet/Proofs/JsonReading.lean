import Mathlib.Algebra.Group.Nat.Defs
import Mathlib.Data.List.Basic
import Stylesheet.Proofs.JsonTrees
import Stylesheet.Proofs.TextLemmas

/-!
# Reading written JSON

The tree that is read of a written value is the tree of the value, and all of the text is read.
-/

namespace Stylesheet.Json

/-- A character that stands for itself in a string literal. -/
structure Verbatim (c : Char) : Prop where
  quote : c ≠ '"'
  backslash : c ≠ '\\'
  printable : ' ' ≤ c

theorem verbatim_digitChar : ∀ digit < 16, Verbatim (Nat.digitChar digit) := by
  have hdigit : ∀ digit < 16, Nat.digitChar digit ≠ '"' ∧ Nat.digitChar digit ≠ '\\' ∧
      ' ' ≤ Nat.digitChar digit := by decide
  intro digit hlt
  obtain ⟨hquote, hbackslash, hprintable⟩ := hdigit digit hlt
  exact ⟨hquote, hbackslash, hprintable⟩

/-- A character is written as itself, or as a backslash, a printable character that the backslash
takes the meaning of, and hexadecimal digits. -/
theorem escape_cases (c : Char) :
    (∃ letter digits, escape c = '\\' :: letter :: digits ∧ ' ' ≤ letter ∧
      ∀ digit ∈ digits, Verbatim digit) ∨ escape c = [c] ∧ Verbatim c := by
  unfold escape
  by_cases hquote : c = '"'
  · exact .inl ⟨'"', [], if_pos hquote, by decide, List.forall_mem_nil _⟩
  rw [if_neg hquote]
  by_cases hbackslash : c = '\\'
  · exact .inl ⟨'\\', [], if_pos hbackslash, by decide, List.forall_mem_nil _⟩
  rw [if_neg hbackslash]
  by_cases hbell : c = '\x08'
  · exact .inl ⟨'b', [], if_pos hbell, by decide, List.forall_mem_nil _⟩
  rw [if_neg hbell]
  by_cases htab : c = '\t'
  · exact .inl ⟨'t', [], if_pos htab, by decide, List.forall_mem_nil _⟩
  rw [if_neg htab]
  by_cases hfeed : c = '\n'
  · exact .inl ⟨'n', [], if_pos hfeed, by decide, List.forall_mem_nil _⟩
  rw [if_neg hfeed]
  by_cases hpage : c = '\x0c'
  · exact .inl ⟨'f', [], if_pos hpage, by decide, List.forall_mem_nil _⟩
  rw [if_neg hpage]
  by_cases hreturn : c = '\r'
  · exact .inl ⟨'r', [], if_pos hreturn, by decide, List.forall_mem_nil _⟩
  rw [if_neg hreturn]
  by_cases hspace : c < ' '
  · have hlt : c.toNat < 32 := hspace
    have hzero : Verbatim '0' := verbatim_digitChar 0 (by decide)
    refine .inl ⟨'u', _, if_pos hspace, by decide, ?_⟩
    simp only [List.forall_mem_cons]
    exact ⟨hzero, hzero, verbatim_digitChar _ (by omega), verbatim_digitChar _ (by omega),
      List.forall_mem_nil _⟩
  · exact .inr ⟨if_neg hspace, hquote, hbackslash, Char.not_lt.mp hspace⟩

namespace Literal

theorem hexValue?_digitChar : ∀ digit < 16, hexValue? (Nat.digitChar digit) = some digit := by
  decide

theorem unit?_digitChar {value : Nat} (h : value < 256) :
    unit? '0' '0' (Nat.digitChar (value / 16)) (Nat.digitChar (value % 16)) = some value := by
  have hhigh := hexValue?_digitChar (value / 16) (by omega)
  have hlow := hexValue?_digitChar (value % 16) (by omega)
  have hzero : hexValue? '0' = some 0 := by decide
  have hvalue : (0 * 16 + 0) * 256 + (value / 16 * 16 + value % 16) = value := by omega
  simp only [unit?, hzero, hhigh, hlow, Option.bind_eq_bind, Option.bind_some, hvalue]

theorem read_unicodeEscape {c : Char} (h : c < ' ') (text : Text) :
    read none (unicodeEscape c ++ text) = push c (read none text) := by
  have hlt : c.toNat < 32 := h
  have hunit : unit? '0' '0' (Nat.digitChar (c.toNat / 16)) (Nat.digitChar (c.toNat % 16)) =
      some c.toNat := unit?_digitChar (by omega)
  have htrailing : isTrailing c.toNat = false := by
    rw [isTrailing, decide_eq_false (by omega), Bool.false_and]
  have hleading : isLeading c.toNat = false := by
    rw [isLeading, decide_eq_false (by omega), Bool.false_and]
  unfold unicodeEscape
  simp only [List.cons_append, List.nil_append]
  rw [read.eq_3 _ _ _ _ _ _ hunit]
  simp only [htrailing, hleading, Bool.false_eq_true, if_false, Char.ofNat_toNat]

theorem read_escape (c : Char) (text : Text) :
    read none (escape c ++ text) = push c (read none text) := by
  unfold escape
  split
  case isTrue h => subst h; rfl
  split
  case isTrue h => subst h; rfl
  split
  case isTrue h => subst h; rfl
  split
  case isTrue h => subst h; rfl
  split
  case isTrue h => subst h; rfl
  split
  case isTrue h => subst h; rfl
  split
  case isTrue h => subst h; rfl
  split
  case isTrue hspace => exact read_unicodeEscape hspace text
  case isFalse _ hslash _ _ _ _ _ hspace =>
    rw [List.singleton_append, read.eq_def]
    simp [hslash, hspace, settle]

theorem read_quoted (text rest : Text) :
    read none (text.flatMap escape ++ '"' :: rest) = ⟨.clean text, some rest⟩ := by
  induction text with
  | nil => rfl
  | cons c text ih =>
      rw [List.flatMap_cons, List.append_assoc, read_escape, ih]
      rfl

end Literal

/-- A character that a numeral may go on with. -/
def continuesNumeral (c : Char) : Bool :=
  c.isDigit || c = '.' || c = 'e' || c = 'E'

/-- A text that no numeral before it goes on into. -/
def EndsNumeral (rest : Text) : Prop :=
  ∀ c ∈ rest.head?, continuesNumeral c = false

namespace Numeral

theorem head?_toDigits {value : Nat} (h : (Nat.toDigits 10 value).head? = some '0') : value = 0 := by
  induction value using Nat.strongRecOn with
  | ind value ih =>
      by_cases hlt : value < 10
      · rw [Nat.toDigits_of_lt_base hlt] at h
        have hdigit : ∀ digit < 10, [Nat.digitChar digit].head? = some '0' → digit = 0 := by decide
        exact hdigit value hlt h
      · have hshorter : value / 10 = 0 := by
          apply ih (value / 10) (by omega)
          rw [Nat.toDigits_of_base_le (by omega) (by omega)] at h
          rwa [List.head?_append_of_ne_nil _ Nat.toDigits_ne_nil] at h
        omega

theorem natural_toDigits (value : Nat) : natural (Nat.toDigits 10 value) = value := by
  have hfold : natural (Nat.toDigits 10 value) =
      Nat.ofDigitChars 10 (Nat.toDigits 10 value) 0 := by
    unfold natural Nat.ofDigitChars digitValue
    simp only [Nat.mul_comm]
  rw [hfold, Nat.ofDigitChars_ten_toDigits]

theorem digits_toDigits {value : Nat} {rest : Text} (hrest : EndsNumeral rest) :
    digits (Nat.toDigits 10 value ++ rest) = .ok (Nat.toDigits 10 value, rest) := by
  have hdigits : ∀ c ∈ Nat.toDigits 10 value, c.isDigit = true := fun c hc =>
    Nat.isDigit_of_mem_toDigits (by omega) (by omega) hc
  have hstop : ∀ c ∈ rest.head?, c.isDigit = false := by
    intro c hc
    have hends := hrest c hc
    simp only [continuesNumeral, Bool.or_eq_false_iff] at hends
    exact hends.1.1.1
  have htake := Text.takeWhile_append_of_stop hdigits hstop
  have hdrop := Text.dropWhile_append_of_stop hdigits hstop
  cases htext : Nat.toDigits 10 value with
  | nil => exact absurd htext Nat.toDigits_ne_nil
  | cons digit more =>
      rw [htext] at hdigits htake hdrop
      rw [List.cons_append] at htake hdrop ⊢
      rw [digits, if_pos (hdigits digit List.mem_cons_self), htake, hdrop]

theorem readWhole_toDigits {value : Nat} {rest : Text} (hrest : EndsNumeral rest) :
    readWhole (Nat.toDigits 10 value ++ rest) = .ok (Nat.toDigits 10 value, rest) := by
  have hzero : ¬((Nat.toDigits 10 value).head? = some '0' &&
      1 < (Nat.toDigits 10 value).length) = true := by
    rw [Bool.and_eq_true, decide_eq_true_iff, decide_eq_true_iff]
    rintro ⟨hhead, hlength⟩
    obtain rfl := head?_toDigits hhead
    exact absurd hlength (by decide)
  rw [readWhole, digits_toDigits hrest]
  exact if_neg hzero

theorem readFraction_of_ends {rest : Text} (hrest : EndsNumeral rest) :
    readFraction rest = .ok ([], rest) := by
  unfold readFraction
  split
  · exact absurd (hrest '.' rfl) (by decide)
  · rfl

theorem readExponent_of_ends {rest : Text} (hrest : EndsNumeral rest) :
    readExponent rest = .ok (none, rest) := by
  cases rest with
  | nil => rfl
  | cons c rest =>
      have hends := hrest c rfl
      simp only [continuesNumeral, Bool.or_eq_false_iff] at hends
      simp [readExponent, hends]

theorem read_toDigits {value : Nat} {rest : Text} (hrest : EndsNumeral rest) :
    read (Nat.toDigits 10 value ++ rest) =
      .ok (⟨false, Nat.toDigits 10 value, [], none⟩, rest) := by
  have hsign : (Nat.toDigits 10 value ++ rest).head? ≠ some '-' := by
    intro hhead
    have hmem := Text.mem_of_head?_append Nat.toDigits_ne_nil hhead
    exact absurd (Nat.isDigit_of_mem_toDigits (by omega) (by omega) hmem) (by decide)
  unfold read
  split
  rename_i negative ahead hahead
  split at hahead
  · rename_i htext
    exact absurd (congrArg List.head? htext) hsign
  · obtain ⟨rfl, rfl⟩ := Prod.mk.inj hahead
    rw [readWhole_toDigits hrest]
    simp only [bind, Except.bind]
    rw [readFraction_of_ends hrest]
    simp only
    rw [readExponent_of_ends hrest]

theorem value_toDigits {value : Nat} (h : value < 2 ^ 64) :
    Numeral.value ⟨false, Nat.toDigits 10 value, [], none⟩ = .ok (.integer value) := by
  have hlimit : value < limit := h
  simp [Numeral.value, natural_toDigits, hlimit]

end Numeral

namespace SourceTree

theorem readWord_append (tree : SourceTree) (word rest : Text) :
    readWord tree word (word ++ rest) = (tree, some rest) := by
  have hafter : afterWord word (word ++ rest) = .ok rest := by
    induction word with
    | nil => rfl
    | cons c word ih => rw [List.cons_append, afterWord, if_pos rfl, ih]
  rw [readWord, hafter]

theorem readNumber_toDigits {value : Nat} {rest : Text} (hvalue : value < 2 ^ 64)
    (hrest : EndsNumeral rest) :
    readNumber (Nat.toDigits 10 value ++ rest) = (tree (.number value), some rest) := by
  rw [readNumber, Numeral.read_toDigits hrest]
  simp only [Numeral.value_toDigits hvalue]
  rfl

/-- A text of nothing but gaps. -/
abbrev Gap (gap : Text) : Prop :=
  ∀ c ∈ gap, isGap c = true

theorem skipGap_append {gap : Text} (hgap : Gap gap) (text : Text) :
    skipGap (gap ++ text) = skipGap text :=
  List.dropWhile_append_of_pos hgap

theorem skipGap_cons {c : Char} (hc : isGap c = false) (text : Text) :
    skipGap (c :: text) = c :: text :=
  List.dropWhile_cons_of_neg (by simp [hc])

theorem readWithin_append {gap : Text} (hgap : Gap gap) (depth : Nat) (text : Text) :
    readWithin depth (gap ++ text) = readWithin depth text := by
  cases depth with
  | zero => rfl
  | succ depth => rw [readWithin, readWithin, skipGap_append hgap]

theorem not_isGap_of_isDigit {c : Char} (hc : c.isDigit = true) : isGap c = false := by
  rw [Bool.eq_false_iff]
  intro hgap
  simp only [isGap, Bool.or_eq_true, decide_eq_true_iff] at hgap
  rcases hgap with ((rfl | rfl) | rfl) | rfl <;> exact absurd hc (by decide)

theorem gap_newline (layout : Layout) (indent : Nat) : Gap (layout.newline indent) := by
  intro c hc
  cases layout with
  | compact => exact absurd hc List.not_mem_nil
  | pretty =>
      rcases List.mem_cons.mp hc with rfl | hc
      · rfl
      · rw [List.eq_of_mem_replicate hc]
        rfl

end SourceTree

section Between

variable {α β : Type} (close : Char) (gap lastGap : Text) (write : β → Text)

/-- What stands after the opening bracket of a written array or object. -/
def between : List β → Text
  | [] => [close]
  | item :: items =>
      gap ++ write item ++ items.flatMap (fun item => ',' :: gap ++ write item) ++ lastGap ++ [close]

variable (begins : Char → Bool) (read : Text → α × Option Text) (value : β → α)

/-- A written item that is told from a gap and a closing bracket, and read as its value. -/
structure Readable (item : β) : Prop where
  head : ∃ c more, write item = c :: more ∧ SourceTree.isGap c = false ∧ c ≠ close ∧ begins c = true
  read_write : ∀ rest, EndsNumeral rest → read (write item ++ rest) = (value item, some rest)

variable {close gap lastGap write begins read value}

theorem length_le_flatMap (items : List β) :
    items.length ≤ (items.flatMap fun item => ',' :: gap ++ write item).length := by
  induction items with
  | nil => exact Nat.le_refl 0
  | cons item items ih =>
      rw [List.flatMap_cons, List.length_append, List.length_append, List.length_cons,
        List.length_cons]
      omega

theorem length_le_between (items : List β) :
    items.length ≤ (between close gap lastGap write items).length := by
  cases items with
  | nil => exact Nat.zero_le _
  | cons item items =>
      have hitems : items.length ≤
          (items.flatMap fun item => ',' :: gap ++ write item).length := length_le_flatMap items
      simp only [between, List.length_append, List.length_cons, List.length_nil] at hitems ⊢
      omega

theorem length_write_lt_between {item : β} {items : List β} (hitem : item ∈ items) :
    (write item).length < (between close gap lastGap write items).length := by
  cases items with
  | nil => exact absurd hitem List.not_mem_nil
  | cons first items =>
      have hlength : (write item).length ≤
          (write first ++ items.flatMap fun item => ',' :: gap ++ write item).length := by
        rcases List.mem_cons.mp hitem with rfl | hitem
        · rw [List.length_append]
          exact Nat.le_add_right _ _
        · have hmem : ',' :: gap ++ write item ∈ items.map fun item => ',' :: gap ++ write item :=
            List.mem_map_of_mem hitem
          have hsublist := (List.sublist_flatten_of_mem hmem).length_le
          rw [← List.flatMap_def, List.length_append] at hsublist
          rw [List.length_append]
          omega
      simp only [between, List.length_append, List.length_cons, List.length_nil] at hlength ⊢
      omega

theorem endsNumeral_cons {c : Char} (hc : continuesNumeral c = false) (rest : Text) :
    EndsNumeral (c :: rest) := by
  intro other hother
  obtain rfl := Option.some.inj hother
  exact hc

theorem endsNumeral_append_cons (hgap : SourceTree.Gap gap) {c : Char}
    (hc : continuesNumeral c = false) (rest : Text) : EndsNumeral (gap ++ c :: rest) := by
  intro other hother
  rcases Text.mem_or_eq_of_head?_append_cons hother with hother | rfl
  · have hother := hgap other hother
    simp only [SourceTree.isGap, Bool.or_eq_true, decide_eq_true_iff] at hother
    rcases hother with ((rfl | rfl) | rfl) | rfl <;> rfl
  · exact hc

namespace SourceTree

theorem readItems_written (hclose : close = ']' ∨ close = '}') (hgap : Gap gap)
    (hlast : Gap lastGap) {item : β} {items : List β}
    (hitems : ∀ other ∈ item :: items, Readable close write begins read value other) {most : Nat}
    (hmost : items.length < most) (rest : Text) :
    readItems close begins read most
        (write item ++ (items.flatMap (fun item => ',' :: gap ++ write item) ++
          (lastGap ++ close :: rest))) =
      (value item :: items.map value, .closed, some rest) := by
  have hgapClose : isGap close = false := by rcases hclose with rfl | rfl <;> rfl
  have hcomma : ',' ≠ close := by rcases hclose with rfl | rfl <;> decide
  have hends : continuesNumeral close = false := by rcases hclose with rfl | rfl <;> rfl
  induction items generalizing item most with
  | nil =>
      obtain ⟨most, rfl⟩ := Nat.exists_eq_succ_of_ne_zero (Nat.ne_of_gt hmost)
      have hread := (hitems item List.mem_cons_self).read_write (lastGap ++ close :: rest)
        (endsNumeral_append_cons hlast hends rest)
      rw [List.flatMap_nil, List.nil_append, readItems, hread]
      simp only [skipGap_append hlast, skipGap_cons hgapClose, if_true, List.map_nil]
  | cons next items ih =>
      obtain ⟨most, rfl⟩ := Nat.exists_eq_succ_of_ne_zero (Nat.ne_of_gt (Nat.zero_lt_of_lt hmost))
      obtain ⟨hitem, hitems⟩ := List.forall_mem_cons.mp hitems
      obtain ⟨c, more, hwrite, hc, hcClose, hbegins⟩ := (hitems next List.mem_cons_self).head
      have hrest := ih hitems (Nat.lt_of_succ_lt_succ hmost)
      rw [List.flatMap_cons, List.append_assoc, List.append_assoc, List.cons_append, readItems,
        hitem.read_write _ (endsNumeral_cons rfl _)]
      rw [hwrite] at hrest ⊢
      rw [List.cons_append] at hrest ⊢
      have hcommaGap : isGap ',' = false := rfl
      simp only [skipGap_cons hcommaGap, skipGap_append hgap, skipGap_cons hc]
      rw [if_neg hcomma, if_neg (not_not.mpr rfl), if_neg hcClose, if_pos hbegins, hrest]
      rfl

theorem readBracket_between (hclose : close = ']' ∨ close = '}') (hgap : Gap gap)
    (hlast : Gap lastGap) {items : List β}
    (hitems : ∀ item ∈ items, Readable close write begins read value item) (rest : Text) :
    readBracket close begins read (between close gap lastGap write items ++ rest) =
      (items.map value, .closed, some rest) := by
  have hgapClose : isGap close = false := by rcases hclose with rfl | rfl <;> rfl
  cases items with
  | nil =>
      rw [between, List.singleton_append, readBracket, skipGap_cons hgapClose]
      exact if_pos rfl
  | cons item items =>
      obtain ⟨c, more, hwrite, hc, hcClose, hbegins⟩ := (hitems item List.mem_cons_self).head
      have hmost : items.length <
          (between close gap lastGap write (item :: items) ++ rest).length := by
        rw [List.length_append]
        exact Nat.lt_add_right _ (length_le_between (item :: items))
      have hread := readItems_written hclose hgap hlast hitems hmost rest
      rw [hwrite, List.cons_append] at hread
      have hskip : skipGap (between close gap lastGap write (item :: items) ++ rest) =
          c :: (more ++ (items.flatMap (fun item => ',' :: gap ++ write item) ++
            (lastGap ++ close :: rest))) := by
        simp only [between, hwrite, List.append_assoc, skipGap_append hgap, List.cons_append,
          skipGap_cons hc, List.nil_append]
      rw [readBracket, hskip]
      simp only
      rw [if_neg hcClose, if_pos hbegins, hread, List.map_cons]

end SourceTree

end Between

theorem writeItems_eq_flatMap (layout : Layout) (indent : Nat) (items : List Json) :
    writeItems layout indent items =
      items.flatMap fun item => ',' :: layout.newline indent ++ write layout indent item := by
  induction items with
  | nil => rfl
  | cons item items ih =>
      rw [List.flatMap_cons, ← ih]
      rfl

theorem writeMembers_eq_flatMap (layout : Layout) (indent : Nat) (members : List (Text × Json)) :
    writeMembers layout indent members =
      members.flatMap fun member =>
        ',' :: layout.newline indent ++ writeMember layout indent member := by
  induction members with
  | nil => rfl
  | cons member members ih =>
      rw [List.flatMap_cons, ← ih]
      rfl

theorem write_number (layout : Layout) (indent value : Nat) :
    write layout indent (.number value) = Nat.toDigits 10 value :=
  rfl

theorem write_string (layout : Layout) (indent : Nat) (text : Text) :
    write layout indent (.string text) = quote text :=
  rfl

theorem write_array (layout : Layout) (indent : Nat) (items : List Json) :
    write layout indent (.array items) =
      '[' :: between ']' (layout.newline (indent + 1)) (layout.newline indent)
        (write layout (indent + 1)) items := by
  cases items with
  | nil => rfl
  | cons item items =>
      rw [between, ← writeItems_eq_flatMap]
      rfl

theorem write_object (layout : Layout) (indent : Nat) (members : List (Text × Json)) :
    write layout indent (.object members) =
      '{' :: between '}' (layout.newline (indent + 1)) (layout.newline indent)
        (writeMember layout (indent + 1)) members := by
  cases members with
  | nil => rfl
  | cons member members =>
      rw [between, ← writeMembers_eq_flatMap]
      rfl

theorem writeMember_eq (layout : Layout) (indent : Nat) (member : Text × Json) :
    writeMember layout indent member =
      quote member.1 ++ layout.colon ++ write layout indent member.2 := by
  cases member
  rfl

theorem depth_le_length_write (layout : Layout) (json : Json) :
    ∀ indent, json.depth ≤ (write layout indent json).length := by
  induction json using induction with
  | null | bool | number | string => exact fun indent => Nat.zero_le _
  | array items ih =>
      intro indent
      rw [write_array, List.length_cons, depth_array_le_succ]
      intro item hitem
      exact (ih item hitem (indent + 1)).trans (Nat.le_of_lt (length_write_lt_between hitem))
  | object members ih =>
      intro indent
      rw [write_object, List.length_cons, depth_object_le_succ]
      intro member hmember
      refine Nat.le_trans ?_ (Nat.le_of_lt (length_write_lt_between hmember))
      rw [writeMember_eq, List.length_append]
      exact Nat.le_add_left_of_le (ih member hmember (indent + 1))

theorem head_write (layout : Layout) (indent : Nat) (json : Json) :
    ∃ c more, write layout indent json = c :: more ∧ SourceTree.isGap c = false ∧ c ≠ ']' := by
  cases json with
  | null => exact ⟨'n', "ull".toList, rfl, rfl, by decide⟩
  | bool value =>
      cases value with
      | true => exact ⟨'t', "rue".toList, rfl, rfl, by decide⟩
      | false => exact ⟨'f', "alse".toList, rfl, rfl, by decide⟩
  | number value =>
      rw [write_number]
      cases htext : Nat.toDigits 10 value with
      | nil => exact absurd htext Nat.toDigits_ne_nil
      | cons digit more =>
          have hdigit : digit.isDigit = true :=
            Nat.isDigit_of_mem_toDigits (by omega) (by omega) (htext ▸ List.mem_cons_self)
          refine ⟨digit, more, rfl, SourceTree.not_isGap_of_isDigit hdigit, ?_⟩
          rintro rfl
          exact absurd hdigit (by decide)
  | string text => exact ⟨'"', _, rfl, rfl, by decide⟩
  | array items =>
      rw [write_array]
      exact ⟨'[', _, rfl, rfl, by decide⟩
  | object members =>
      rw [write_object]
      exact ⟨'{', _, rfl, rfl, by decide⟩

namespace SourceTree

theorem readMember_writeMember {layout : Layout} {indent : Nat} {member : Text × Json}
    {read : Text → SourceTree × Option Text} {rest : Text}
    (hread : ∀ gap, Gap gap → read (gap ++ (write layout indent member.2 ++ rest)) =
      (member.2.tree, some rest)) :
    readMember read (writeMember layout indent member ++ rest) =
      ((.clean member.1, member.2.tree), some rest) := by
  obtain ⟨gap, hgap, hcolon⟩ : ∃ gap, Gap gap ∧ layout.colon = ':' :: gap := by
    cases layout with
    | compact => exact ⟨[], fun c hc => absurd hc List.not_mem_nil, rfl⟩
    | pretty => exact ⟨[' '], fun c hc => by rw [List.mem_singleton.mp hc]; rfl, rfl⟩
  have htext : (writeMember layout indent member ++ rest).drop 1 =
      member.1.flatMap escape ++ '"' :: (':' :: (gap ++ (write layout indent member.2 ++ rest))) := by
    simp [writeMember_eq, quote, hcolon]
  have hcolonGap : isGap ':' = false := rfl
  rw [readMember, htext, Literal.read_quoted]
  simp only [skipGap_cons hcolonGap, if_true, hread gap hgap]

theorem readWithin_digit {c : Char} (hc : c.isDigit = true) (depth : Nat) (text : Text) :
    readWithin (depth + 1) (c :: text) = readNumber (c :: text) := by
  have hnot : ∀ d, d.isDigit = false → c ≠ d := by
    rintro d hd rfl
    exact absurd hc (by simp [hd])
  rw [readWithin, skipGap_cons (not_isGap_of_isDigit hc)]
  split
  case h_8 heq =>
    obtain ⟨rfl, rfl⟩ := List.cons.inj heq
    rw [hc, Bool.or_true, if_pos rfl]
  all_goals rename_i heq; first
    | exact absurd heq (List.cons_ne_nil c text)
    | exact absurd (List.cons.inj heq).1 (hnot _ rfl)

theorem readWithin_write (layout : Layout) (json : Json)
    (hnumbers : ∀ value ∈ json.numbers, value < 2 ^ 64) :
    ∀ indent depth rest, json.depth < depth → EndsNumeral rest →
      readWithin depth (write layout indent json ++ rest) = (json.tree, some rest) := by
  induction json using Json.induction with
  | null =>
      intro indent depth rest hdepth hrest
      obtain ⟨depth, rfl⟩ := Nat.exists_eq_succ_of_ne_zero (Nat.ne_zero_of_lt hdepth)
      exact readWord_append .null "ull".toList rest
  | bool value =>
      intro indent depth rest hdepth hrest
      obtain ⟨depth, rfl⟩ := Nat.exists_eq_succ_of_ne_zero (Nat.ne_zero_of_lt hdepth)
      cases value with
      | true => exact readWord_append (.bool true) "rue".toList rest
      | false => exact readWord_append (.bool false) "alse".toList rest
  | number value =>
      intro indent depth rest hdepth hrest
      obtain ⟨depth, rfl⟩ := Nat.exists_eq_succ_of_ne_zero (Nat.ne_zero_of_lt hdepth)
      have hread := readNumber_toDigits (hnumbers value List.mem_cons_self) hrest
      rw [write_number]
      cases htext : Nat.toDigits 10 value with
      | nil => exact absurd htext Nat.toDigits_ne_nil
      | cons digit more =>
          have hdigit : digit.isDigit = true :=
            Nat.isDigit_of_mem_toDigits (by omega) (by omega) (htext ▸ List.mem_cons_self)
          rw [htext, List.cons_append] at hread
          rw [List.cons_append, readWithin_digit hdigit, hread]
  | string text =>
      intro indent depth rest hdepth hrest
      obtain ⟨depth, rfl⟩ := Nat.exists_eq_succ_of_ne_zero (Nat.ne_zero_of_lt hdepth)
      have hquote : isGap '"' = false := rfl
      have htext : write layout indent (.string text) ++ rest =
          '"' :: (text.flatMap escape ++ '"' :: rest) := by
        simp [write_string, quote]
      rw [htext, readWithin, skipGap_cons hquote]
      simp only [Literal.read_quoted]
      rfl
  | array items ih =>
      intro indent depth rest hdepth hrest
      obtain ⟨depth, rfl⟩ := Nat.exists_eq_succ_of_ne_zero (Nat.ne_zero_of_lt hdepth)
      have hitems : ∀ item ∈ items, Readable ']' (write layout (indent + 1)) (fun _ => true)
          (readWithin depth) tree item := by
        intro item hitem
        obtain ⟨c, more, hwrite, hgap, hclose⟩ := head_write layout (indent + 1) item
        refine ⟨⟨c, more, hwrite, hgap, hclose, rfl⟩, fun rest hrest => ?_⟩
        refine ih item hitem (fun value hvalue => ?_) (indent + 1) depth rest ?_ hrest
        · rw [numbers_array] at hnumbers
          exact hnumbers value (List.mem_flatMap.mpr ⟨item, hitem, hvalue⟩)
        · exact Nat.lt_of_lt_of_le (depth_lt_array hitem) (Nat.le_of_lt_succ hdepth)
      have hopening : isGap '[' = false := rfl
      rw [write_array, List.cons_append, readWithin, skipGap_cons hopening]
      simp only [readBracket_between (.inl rfl) (gap_newline layout (indent + 1))
        (gap_newline layout indent) hitems]
      rw [tree_array]
  | object members ih =>
      intro indent depth rest hdepth hrest
      obtain ⟨depth, rfl⟩ := Nat.exists_eq_succ_of_ne_zero (Nat.ne_zero_of_lt hdepth)
      have hmembers : ∀ member ∈ members, Readable '}' (writeMember layout (indent + 1)) (· = '"')
          (readMember (readWithin depth)) (fun member => (.clean member.1, member.2.tree))
          member := by
        intro member hmember
        refine ⟨?_, fun rest hrest => readMember_writeMember fun gap hgap => ?_⟩
        · rw [writeMember_eq]
          exact ⟨'"', _, rfl, rfl, by decide, rfl⟩
        rw [readWithin_append hgap]
        refine ih member hmember (fun value hvalue => ?_) (indent + 1) depth rest ?_ hrest
        · rw [numbers_object] at hnumbers
          exact hnumbers value (List.mem_flatMap.mpr ⟨member, hmember, hvalue⟩)
        · exact Nat.lt_of_lt_of_le (depth_lt_object hmember) (Nat.le_of_lt_succ hdepth)
      have hopening : isGap '{' = false := rfl
      rw [write_object, List.cons_append, readWithin, skipGap_cons hopening]
      simp only [readBracket_between (.inr rfl) (gap_newline layout (indent + 1))
        (gap_newline layout indent) hmembers]
      rw [tree_object]

theorem read_print (layout : Layout) {json : Json}
    (hnumbers : ∀ value ∈ json.numbers, value < 2 ^ 64) :
    SourceTree.read (json.print layout) = (json.tree, some []) := by
  have hread := readWithin_write layout json hnumbers 0 ((json.print layout).length + 1) []
    (Nat.lt_succ_of_le (depth_le_length_write layout json 0)) (by simp [EndsNumeral])
  rwa [List.append_nil] at hread

end SourceTree

end Stylesheet.Json
