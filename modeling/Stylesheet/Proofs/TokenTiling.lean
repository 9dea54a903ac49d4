import Mathlib.Data.List.Chain
import Stylesheet.Proofs.CheckedBraces
import Stylesheet.Proofs.Occurrences
import Stylesheet.Proofs.SkippedRuns
import Stylesheet.Proofs.Utf8Bytes

/-!
# Tilings of a text by tokens

The tokens of a text stand one behind the other and leave nothing out. What is asked of the bytes of a
token, kind by kind, leaves no choice where the token ends, so a text has no other tiling.
-/

namespace Stylesheet

theorem Comment.body?_eq_none_iff {text : Text} : body? text = none ↔ ¬['*', '/'] <:+: text := by
  constructor
  · intro h
    fun_induction body? text with
    | case1 => simp
    | case2 => contradiction
    | case3 c text hcloser ih =>
        rw [List.infix_cons_iff, not_or]
        refine ⟨?_, ih (Option.map_eq_none_iff.mp h)⟩
        rintro ⟨more, hmore⟩
        obtain ⟨rfl, rfl⟩ := List.cons.inj hmore
        exact hcloser more rfl rfl
  · intro hclosed
    by_contra hsome
    obtain ⟨⟨body, rest⟩, hread⟩ := Option.ne_none_iff_exists'.mp hsome
    obtain rfl := (body?_local hread).1
    exact hclosed ⟨body, rest, List.append_assoc _ _ _⟩

namespace Token

open Text (utf8)

/-! ### Tilings -/

/-- The bytes of braces and slashes. -/
def delimiters : List UInt8 :=
  utf8 ['{', '}', '/']

/-- The form of the bytes of a token, where `behind` are the bytes that follow them. A comment ends
with its first closer. -/
def Kind.Fits : Kind → (lexeme behind : List UInt8) → Prop
  | .text, lexeme, _ => lexeme.Disjoint delimiters
  | .opening, lexeme, _ => lexeme = utf8 ['{']
  | .closing, lexeme, _ => lexeme = utf8 ['}']
  | .slash, lexeme, behind => lexeme = utf8 ['/'] ∧ ¬utf8 ['*'] <+: behind
  | .comment, lexeme, _ => ∃ body, lexeme = utf8 ['/', '*'] ++ body ++ utf8 ['*', '/'] ∧
      ¬utf8 ['*', '/'] <:+: body
  | .openComment, lexeme, _ => ∃ body, lexeme = utf8 ['/', '*'] ++ body ∧ ¬utf8 ['*', '/'] <:+: body

/-- A kind of token, and the byte offsets between which a token of this kind stands. -/
structure Place where
  kind : Kind
  start : Nat
  stop : Nat
deriving DecidableEq

/-- The place of a token found in a text. -/
def placeOf (site : Site Token) : Place :=
  ⟨site.content.kind, site.offset, site.offset + site.content.lexeme.byteSize⟩

namespace Place

/-- The bytes at a place of a text. -/
def bytes (text : Text) (place : Place) : List UInt8 :=
  ((utf8 text).take place.stop).drop place.start

def behind (text : Text) (place : Place) : List UInt8 :=
  (utf8 text).drop place.stop

/-- What is asked of a place and the one after it: runs of plain text are not parted, and nothing is
behind a comment that never ends. -/
structure Precedes (place next : Place) : Prop where
  meets : place.stop = next.start
  apart : ¬(place.kind = .text ∧ next.kind = .text)
  closed : place.kind ≠ .openComment

end Place

/-- Places of tokens that cover a text from the offset `start` on. -/
structure Tiling (text : Text) (start : Nat) (places : List Place) : Prop where
  nonempty : ∀ place ∈ places, place.start < place.stop
  fits : ∀ place ∈ places, place.kind.Fits (place.bytes text) (place.behind text)
  chain : places.IsChain Place.Precedes
  begins : ∀ place ∈ places.head?, place.start = start
  ends : (places.getLast?.map Place.stop).getD start = text.byteSize

variable {text front ahead rest : Text} {start : Nat} {place : Place} {places : List Place}
  {token : Token} {kind : Kind} {lexeme behind : List UInt8}

/-! ### Bytes and characters -/

theorem mem_delimiters_iff {c : Char} {b : UInt8} (hb : b ∈ String.utf8EncodeChar c) :
    b ∈ delimiters ↔ isDelimiter c = true := by
  have hbytes : delimiters = ['{'.toUInt8, '}'.toUInt8, '/'.toUInt8] := rfl
  have hmark : ∀ {m : Char}, Text.isAscii m = true → (b = m.toUInt8 ↔ c = m) := fun hm =>
    Text.byte_eq_iff hm hb
  rw [hbytes, List.mem_cons, List.mem_cons, List.mem_singleton, hmark (by decide), hmark (by decide),
    hmark (by decide)]
  simp [isDelimiter, or_assoc]

theorem disjoint_delimiters_iff {run : Text} :
    (utf8 run).Disjoint delimiters ↔ ∀ c ∈ run, isDelimiter c = false := by
  constructor
  · intro h c hc
    obtain ⟨b, hb⟩ : ∃ b, b ∈ String.utf8EncodeChar c :=
      List.exists_mem_of_ne_nil _ String.utf8EncodeChar_ne_nil
    refine Bool.eq_false_iff.mpr fun hdelimiter => ?_
    exact h (List.mem_flatMap.mpr ⟨c, hc, hb⟩) ((mem_delimiters_iff hb).mpr hdelimiter)
  · intro h b hb hdelimiter
    obtain ⟨c, hc, hb⟩ := List.mem_flatMap.mp hb
    exact absurd ((mem_delimiters_iff hb).mp hdelimiter) (Bool.eq_false_iff.mp (h c hc))

theorem delimiters_ahead_iff :
    (∀ b ∈ (utf8 ahead).head?, b ∈ delimiters) ↔ ∀ c ∈ ahead.head?, isDelimiter c = true := by
  cases ahead with
  | nil => simp [utf8]
  | cons c rest =>
      obtain ⟨b, hb, bytes, hfirst⟩ := Text.exists_utf8_cons c rest
      rw [hfirst]
      simp [mem_delimiters_iff hb]

theorem not_closer_iff {body : Text} :
    ¬utf8 ['*', '/'] <:+: utf8 body ↔ ¬['*', '/'] <:+: body :=
  not_congr (Text.utf8_infix_iff (by decide) (List.cons_ne_nil _ _))

/-! ### The first token -/

/-- What follows a token that is as long as it can be. -/
structure Kind.Stops (kind : Kind) (behind : List UInt8) : Prop where
  run : kind = .text → ∀ b ∈ behind.head?, b ∈ delimiters
  last : kind = .openComment → behind = []

theorem Kind.stops_of_ne (htext : kind ≠ .text) (hopen : kind ≠ .openComment) :
    kind.Stops behind :=
  ⟨fun h => absurd h htext, fun h => absurd h hopen⟩

/-- Bytes that have the form of a token and are followed as they should be are the first token. -/
theorem exists_first_of_fits (hahead : utf8 ahead = lexeme ++ behind) (hne : lexeme ≠ [])
    (hfits : kind.Fits lexeme behind) (hstops : kind.Stops behind) :
    ∃ piece, utf8 piece = lexeme ∧ first? ahead = some ⟨kind, piece⟩ := by
  have hsplit : ahead = [] ++ ahead := rfl
  cases kind with
  | text =>
      -- What follows begins with an ASCII byte, so the bytes are those of whole characters.
      obtain ⟨run, rest, rfl, rfl, rfl⟩ := Text.exists_of_utf8_eq_append hahead fun b hb =>
        Text.toNat_lt_of_mem_utf8 (by decide) (hstops.run rfl b hb)
      have hchars : ∀ c ∈ run, (!isDelimiter c) = true := fun c hc =>
        congrArg (!·) (disjoint_delimiters_iff.mp hfits c hc)
      have hnext : ∀ c ∈ rest.head?, (!isDelimiter c) = false := fun c hc =>
        congrArg (!·) (delimiters_ahead_iff.mp (hstops.run rfl) c hc)
      refine ⟨run, rfl, ?_⟩
      cases run with
      | nil => exact absurd rfl hne
      | cons c run =>
          have hc : isDelimiter c = false := disjoint_delimiters_iff.mp hfits c List.mem_cons_self
          have hfirst : first? (c :: run ++ rest) =
              some ⟨.text, (c :: run ++ rest).takeWhile (!isDelimiter ·)⟩ :=
            (Checked.fronts_text hc hsplit).first
          rwa [Text.takeWhile_append_of_stop hchars hnext] at hfirst
  | opening =>
      obtain rfl : lexeme = utf8 ['{'] := hfits
      obtain ⟨rest, rfl⟩ : ['{'] <+: ahead := Text.utf8_prefix_iff.mp ⟨behind, hahead.symm⟩
      exact ⟨['{'], rfl, rfl⟩
  | closing =>
      obtain rfl : lexeme = utf8 ['}'] := hfits
      obtain ⟨rest, rfl⟩ : ['}'] <+: ahead := Text.utf8_prefix_iff.mp ⟨behind, hahead.symm⟩
      exact ⟨['}'], rfl, rfl⟩
  | slash =>
      obtain ⟨rfl, hstar⟩ := hfits
      obtain ⟨rest, rfl⟩ : ['/'] <+: ahead := Text.utf8_prefix_iff.mp ⟨behind, hahead.symm⟩
      rw [Text.utf8_append] at hahead
      obtain rfl := List.append_cancel_left hahead
      rw [Text.utf8_prefix_iff, List.singleton_prefix_iff_head?_eq_some] at hstar
      exact ⟨['/'], rfl, (Checked.fronts_slash hstar hsplit).first⟩
  | comment =>
      obtain ⟨bytes, rfl, hclosed⟩ := hfits
      obtain ⟨inside, rfl⟩ : ['/', '*'] <+: ahead :=
        Text.utf8_prefix_iff.mp ⟨bytes ++ utf8 ['*', '/'] ++ behind, by simp [hahead]⟩
      rw [Text.utf8_append, List.append_assoc, List.append_assoc] at hahead
      obtain ⟨body, rest, rfl, rfl, -⟩ := Text.exists_of_utf8_eq_append_word (by decide)
        (List.cons_ne_nil _ _) (List.append_cancel_left hahead)
      have hbody := Comment.body?_append (not_closer_iff.mp hclosed) rest
      refine ⟨'/' :: '*' :: body ++ ['*', '/'], ?_, (Checked.fronts_comment hbody hsplit).first⟩
      exact (Text.utf8_append (['/', '*'] ++ body) ['*', '/']).trans (by rw [Text.utf8_append])
  | openComment =>
      obtain ⟨bytes, rfl, hclosed⟩ := hfits
      obtain rfl : behind = [] := hstops.last rfl
      obtain ⟨inside, rfl⟩ : ['/', '*'] <+: ahead :=
        Text.utf8_prefix_iff.mp ⟨bytes, by simp [hahead]⟩
      rw [Text.utf8_append, List.append_nil] at hahead
      obtain rfl := List.append_cancel_left hahead
      have hbody : Comment.body? inside = none :=
        Comment.body?_eq_none_iff.mpr (not_closer_iff.mp hclosed)
      exact ⟨'/' :: '*' :: inside, Text.utf8_append ['/', '*'] inside,
        (Checked.fronts_openComment hbody hsplit).first⟩

/-- The first token has the form of its kind and is as long as it can be. -/
theorem fits_of_first? (h : first? ahead = some token) (hahead : ahead = token.lexeme ++ rest) :
    token.kind.Fits (utf8 token.lexeme) (utf8 rest) ∧ token.kind.Stops (utf8 rest) := by
  fun_cases first? ahead with
  | case1 => contradiction
  | case2 =>
      obtain rfl := Option.some.inj h
      exact ⟨rfl, Kind.stops_of_ne (by simp) (by simp)⟩
  | case3 =>
      obtain rfl := Option.some.inj h
      exact ⟨rfl, Kind.stops_of_ne (by simp) (by simp)⟩
  | case4 inside body after hbody =>
      rw [first?, hbody] at h
      obtain rfl := Option.some.inj h
      refine ⟨⟨utf8 body, ?_, not_closer_iff.mpr (Comment.not_closer_of_body? hbody)⟩,
        Kind.stops_of_ne (by simp) (by simp)⟩
      exact (Text.utf8_append (['/', '*'] ++ body) ['*', '/']).trans (by rw [Text.utf8_append])
  | case5 inside hbody =>
      rw [first?, hbody] at h
      obtain rfl := Option.some.inj h
      obtain rfl : rest = [] := List.append_right_eq_self.mp hahead.symm
      exact ⟨⟨utf8 inside, Text.utf8_append ['/', '*'] inside,
        not_closer_iff.mpr (Comment.body?_eq_none_iff.mp hbody)⟩, fun h => absurd h (by simp),
        fun _ => rfl⟩
  | case6 inside hstar =>
      rw [first?] at h
      · obtain rfl := Option.some.inj h
        obtain rfl : inside = rest := (List.cons.inj hahead).2
        refine ⟨⟨rfl, fun hprefix => ?_⟩, Kind.stops_of_ne (by simp) (by simp)⟩
        obtain ⟨more, hmore⟩ := Text.utf8_prefix_iff.mp hprefix
        exact hstar more hmore.symm
      · exact hstar
  | case7 hnil hopening hclosing _ hslash =>
      rw [first?] at h
      · obtain rfl := Option.some.inj h
        have hrest : ahead.dropWhile (!isDelimiter ·) = rest := by
          have hsplit : ahead.takeWhile (!isDelimiter ·) ++ ahead.dropWhile (!isDelimiter ·) =
              ahead.takeWhile (!isDelimiter ·) ++ rest :=
            List.takeWhile_append_dropWhile.trans hahead
          exact List.append_cancel_left hsplit
        refine ⟨disjoint_delimiters_iff.mpr fun c hc => ?_,
          fun _ => delimiters_ahead_iff.mpr fun c hc => ?_, fun h => absurd h (by simp)⟩
        · simpa using List.mem_takeWhile_imp hc
        · obtain ⟨more, rfl⟩ := List.head?_eq_some_iff.mp hc
          simpa using Text.not_of_dropWhile_eq_cons hrest
      all_goals assumption

theorem exists_first_lexeme (hahead : ahead ≠ []) :
    ∃ token rest, first? ahead = some token ∧ ahead = token.lexeme ++ rest ∧ token.lexeme ≠ [] := by
  have hsplit : ahead = [] ++ ahead := rfl
  obtain ⟨token, rest, h⟩ := Checked.exists_token hsplit hahead
  exact ⟨token, rest, h.first, h.ahead_eq, h.progress⟩

/-- Induction over the tokens of a text. -/
theorem induction {Q : Text → Prop} (nil : Q [])
    (cons : ∀ token rest, first? (token.lexeme ++ rest) = some token → token.lexeme ≠ [] →
      Q rest → Q (token.lexeme ++ rest)) (text : Text) : Q text := by
  induction hlength : text.length using Nat.strong_induction_on generalizing text with
  | _ length ih =>
      by_cases htext : text = []
      · exact htext ▸ nil
      obtain ⟨token, rest, hfirst, rfl, hne⟩ := exists_first_lexeme htext
      have hshorter : rest.length < length := by
        have hpositive := List.length_pos_iff.mpr hne
        rw [← hlength, List.length_append]
        omega
      exact cons token rest hfirst hne (ih rest.length hshorter rest rfl)

theorem scanFrom_first (hfirst : first? (token.lexeme ++ rest) = some token)
    (hne : token.lexeme ≠ []) (before : Text) : scanFrom move 0 before (token.lexeme ++ rest) =
      ⟨before, token⟩ :: scanFrom move 0 (token.lexeme.reverse ++ before) rest :=
  scanFrom_take hne (by rw [move, hfirst])

/-! ### One place after the other -/

theorem tiling_nil_iff : Tiling text start [] ↔ start = text.byteSize :=
  ⟨fun h => h.ends, fun h => ⟨by simp, by simp, .nil, by simp, h⟩⟩

theorem tiling_cons_iff : Tiling text start (place :: places) ↔
    place.start = start ∧ start < place.stop ∧
      place.kind.Fits (place.bytes text) (place.behind text) ∧
      (∀ next ∈ places.head?, place.Precedes next) ∧ Tiling text place.stop places := by
  have hends : (((place :: places).getLast?).map Place.stop).getD start =
      (places.getLast?.map Place.stop).getD place.stop := by
    rw [List.getLast?_cons]
    cases places.getLast? <;> rfl
  constructor
  · rintro ⟨hnonempty, hfits, hchain, hbegins, hstop⟩
    obtain ⟨hnonempty, hothers⟩ := List.forall_mem_cons.mp hnonempty
    obtain ⟨hfit, hfits⟩ := List.forall_mem_cons.mp hfits
    obtain ⟨hnext, hchain⟩ := List.isChain_cons.mp hchain
    obtain rfl : place.start = start := hbegins place rfl
    exact ⟨rfl, hnonempty, hfit, hnext, hothers, hfits, hchain,
      fun next h => ((hnext next h).meets).symm, hends ▸ hstop⟩
  · rintro ⟨rfl, hnonempty, hfit, hnext, h⟩
    exact ⟨List.forall_mem_cons.mpr ⟨hnonempty, h.nonempty⟩, List.forall_mem_cons.mpr ⟨hfit, h.fits⟩,
      List.isChain_cons.mpr ⟨hnext, h.chain⟩, by simp, hends.trans h.ends⟩

theorem Tiling.start_le (h : Tiling text start places) : start ≤ text.byteSize := by
  induction places generalizing start with
  | nil => exact le_of_eq (tiling_nil_iff.mp h)
  | cons place places ih =>
      obtain ⟨-, hstart, -, -, h⟩ := tiling_cons_iff.mp h
      exact (le_of_lt hstart).trans (ih h)

namespace Place

theorem bytes_append_behind (h : place.start ≤ place.stop) :
    place.bytes text ++ place.behind text = (utf8 text).drop place.start := by
  have hbehind : place.behind text = ((utf8 text).drop place.start).drop (place.stop - place.start) := by
    rw [List.drop_drop, Nat.add_sub_cancel' h, behind]
  rw [hbehind, bytes, List.drop_take, List.take_append_drop]

theorem length_bytes (h : place.stop ≤ text.byteSize) :
    (place.bytes text).length = place.stop - place.start := by
  rw [bytes, List.length_drop, List.length_take, Text.length_utf8, Nat.min_eq_left h]

theorem bytes_ne_nil (hstart : place.start < place.stop) (hstop : place.stop ≤ text.byteSize) :
    place.bytes text ≠ [] := by
  have hlength := length_bytes hstop
  refine List.length_pos_iff.mp ?_
  omega

end Place

theorem Kind.Fits.head_mem (h : kind.Fits lexeme behind) (hkind : kind ≠ .text) :
    ∃ b ∈ delimiters, b ∈ lexeme.head? := by
  cases kind with
  | text => contradiction
  | opening =>
      obtain rfl : lexeme = utf8 ['{'] := h
      exact ⟨'{'.toUInt8, by decide, rfl⟩
  | closing =>
      obtain rfl : lexeme = utf8 ['}'] := h
      exact ⟨'}'.toUInt8, by decide, rfl⟩
  | slash =>
      obtain ⟨rfl, -⟩ := h
      exact ⟨'/'.toUInt8, by decide, rfl⟩
  | comment =>
      obtain ⟨body, rfl, -⟩ := h
      exact ⟨'/'.toUInt8, by decide, rfl⟩
  | openComment =>
      obtain ⟨body, rfl, -⟩ := h
      exact ⟨'/'.toUInt8, by decide, rfl⟩

theorem Kind.Fits.text_iff (h : kind.Fits lexeme behind) :
    kind = .text ↔ ∀ b ∈ lexeme.head?, b ∉ delimiters := by
  constructor
  · rintro rfl b hb hdelimiter
    have hbytes : lexeme.Disjoint delimiters := h
    exact hbytes (List.mem_of_mem_head? hb) hdelimiter
  · intro hplain
    by_contra hkind
    obtain ⟨b, hdelimiter, hb⟩ := h.head_mem hkind
    exact hplain b hb hdelimiter

/-- A tiling tells by its next byte whether a run of plain text comes next. -/
theorem Tiling.text_iff (h : Tiling text start (place :: places)) :
    place.kind = .text ↔ ∀ b ∈ ((utf8 text).drop start).head?, b ∉ delimiters := by
  obtain ⟨rfl, hstart, hfits, -, hothers⟩ := tiling_cons_iff.mp h
  have hne : place.bytes text ≠ [] := Place.bytes_ne_nil hstart hothers.start_le
  rw [hfits.text_iff, ← Place.bytes_append_behind (le_of_lt hstart),
    List.head?_append_of_ne_nil _ hne]

/-- A token is as long as it can be exactly if the tiling may go on as it does. -/
theorem Tiling.stops_iff (h : Tiling text place.stop places) :
    place.kind.Stops (place.behind text) ↔ ∀ next ∈ places.head?, place.Precedes next := by
  cases places with
  | nil =>
      have hbehind : place.behind text = [] := by
        rw [Place.behind, tiling_nil_iff.mp h, ← Text.length_utf8, List.drop_length]
      rw [hbehind]
      exact ⟨fun _ => by simp, fun _ => ⟨fun _ => by simp, fun _ => rfl⟩⟩
  | cons next places =>
      have htext := h.text_iff
      obtain ⟨hmeets, hstart, -, -, hothers⟩ := tiling_cons_iff.mp h
      obtain ⟨b, bytes, hbehind⟩ : ∃ b bytes, place.behind text = b :: bytes := by
        refine List.exists_cons_of_ne_nil fun hnil => ?_
        have hlength := List.drop_eq_nil_iff.mp hnil
        rw [Text.length_utf8] at hlength
        exact absurd (hstart.trans_le hothers.start_le) (not_lt_of_ge hlength)
      -- The next token begins with the byte behind this one.
      have hplain : next.kind = .text ↔ b ∉ delimiters := by
        rw [htext, ← Place.behind, hbehind]
        simp
      have hprecedes : (∀ other ∈ (next :: places).head?, place.Precedes other) ↔
          place.Precedes next := by simp
      rw [hprecedes, hbehind]
      constructor
      · rintro ⟨hrun, hlast⟩
        refine ⟨hmeets.symm, fun ⟨hkind, hnext⟩ => ?_, fun hkind => ?_⟩
        · exact hplain.mp hnext (hrun hkind b rfl)
        · exact List.cons_ne_nil _ _ (hlast hkind)
      · rintro ⟨-, hapart, hclosed⟩
        refine ⟨fun hkind => ?_, fun hkind => absurd hkind hclosed⟩
        have hdelimiter : b ∈ delimiters := by
          by_contra hnext
          exact hapart ⟨hkind, hplain.mpr hnext⟩
        simpa using hdelimiter

variable {front piece : Text}

theorem placeOf_reverse (front : Text) (token : Token) : placeOf ⟨front.reverse, token⟩ =
    ⟨token.kind, front.byteSize, Text.byteSize (front ++ token.lexeme)⟩ := by
  rw [placeOf, Site.offset, Text.byteSize_reverse, Text.byteSize_append]

theorem Place.bytes_of_eq (place : Place) (htext : text = front ++ (piece ++ rest))
    (hstart : place.start = front.byteSize) (hstop : place.stop = Text.byteSize (front ++ piece)) :
    place.bytes text = utf8 piece ∧ place.behind text = utf8 rest := by
  have hbytes : utf8 text = utf8 (front ++ piece) ++ utf8 rest := by
    rw [htext, ← List.append_assoc, Text.utf8_append]
  rw [bytes, behind, hstart, hstop, ← Text.length_utf8, ← Text.length_utf8, hbytes, List.take_left,
    List.drop_left, Text.utf8_append, List.drop_left]
  exact ⟨rfl, rfl⟩

/-- A tiling begins with the first token of the text. -/
theorem tiling_cons_iff_first (hfirst : first? ahead = some token)
    (hahead : ahead = token.lexeme ++ rest) (hne : token.lexeme ≠ []) :
    Tiling (front ++ ahead) front.byteSize (place :: places) ↔
      place = ⟨token.kind, front.byteSize, Text.byteSize (front ++ token.lexeme)⟩ ∧
        Tiling (front ++ ahead) (Text.byteSize (front ++ token.lexeme)) places := by
  rw [tiling_cons_iff]
  constructor
  · rintro ⟨hbegins, hstart, hfits, hnext, h⟩
    rw [← hbegins] at hstart
    have hbytes : utf8 ahead = place.bytes (front ++ ahead) ++ place.behind (front ++ ahead) := by
      rw [Place.bytes_append_behind (le_of_lt hstart), hbegins, ← Text.length_utf8, Text.utf8_append,
        List.drop_left]
    obtain ⟨piece, hpiece, hread⟩ := exists_first_of_fits hbytes
      (Place.bytes_ne_nil hstart h.start_le) hfits (h.stops_iff.mpr hnext)
    obtain rfl := Option.some.inj (hread.symm.trans hfirst)
    have hstop : place.stop = Text.byteSize (front ++ piece) := by
      have hlength := Place.length_bytes h.start_le
      rw [← hpiece, Text.length_utf8] at hlength
      rw [Text.byteSize_append]
      omega
    rw [hstop] at h
    refine ⟨?_, h⟩
    rw [← hbegins, ← hstop]
  · rintro ⟨rfl, h⟩
    obtain ⟨hfits, hstops⟩ := fits_of_first? hfirst hahead
    obtain ⟨hbytes, hbehind⟩ := Place.bytes_of_eq
      ⟨token.kind, front.byteSize, Text.byteSize (front ++ token.lexeme)⟩
      (congrArg (front ++ ·) hahead) rfl rfl
    rw [← hbytes, ← hbehind] at hfits
    rw [← hbehind] at hstops
    have hstart : front.byteSize < Text.byteSize (front ++ token.lexeme) := by
      rw [Text.byteSize_append]
      exact Nat.lt_add_of_pos_right (Text.byteSize_pos hne)
    exact ⟨rfl, hstart, hfits, h.stops_iff.mp hstops, h⟩

theorem tiling_iff_scanFrom (front ahead : Text) (places : List Place) :
    Tiling (front ++ ahead) front.byteSize places ↔
      places = (scanFrom move 0 front.reverse ahead).map placeOf := by
  induction ahead using Token.induction generalizing front places with
  | nil =>
      rw [List.append_nil]
      cases places with
      | nil => exact iff_of_true (tiling_nil_iff.mpr rfl) rfl
      | cons place places =>
          refine iff_of_false (fun h => ?_) (List.cons_ne_nil _ _)
          obtain ⟨-, hstart, -, -, h⟩ := tiling_cons_iff.mp h
          exact absurd h.start_le (not_le_of_gt hstart)
  | cons token rest hfirst hne ih =>
      rw [scanFrom_first hfirst hne, ← List.reverse_append, List.map_cons, placeOf_reverse]
      cases places with
      | nil =>
          refine iff_of_false (fun h => ?_) (List.cons_ne_nil _ _).symm
          have hsize := tiling_nil_iff.mp h
          have hpositive := Text.byteSize_pos hne
          rw [Text.byteSize_append, Text.byteSize_append] at hsize
          omega
      | cons place places =>
          -- What is behind the first token is tiled by the other places.
          rw [tiling_cons_iff_first hfirst rfl hne, ← List.append_assoc,
            ih (front ++ token.lexeme) places, List.cons.injEq]

/-- **Tokens.** The tokens of a text tile it, and they are the only tiling. -/
theorem tiling_iff (text : Text) (places : List Place) :
    Tiling text 0 places ↔ places = (sites text).map placeOf :=
  tiling_iff_scanFrom [] text places

example : (sites "\x7b/*/ü*/a//*".toList).map placeOf =
    [⟨.opening, 0, 1⟩, ⟨.comment, 1, 8⟩, ⟨.text, 8, 9⟩, ⟨.slash, 9, 10⟩, ⟨.openComment, 10, 12⟩] := by
  decide

end Token

end Stylesheet
