import Mathlib.Data.Option.Basic
import Stylesheet.Pattern
import Stylesheet.Proofs.TextLemmas
import Stylesheet.Proofs.ScanLemmas

/-!
# The forms of patterns

A pattern reads exactly the pieces of a certain form, whatever text follows them. So a piece is read
in every text that begins with it, and the only way for more text to bring about a reading is that
the piece was cut short before.
-/

namespace Stylesheet.Pattern

/-- A pattern reads a piece if and only if the piece's three parts are of the form. -/
def Reads (pattern : Pattern) (form : (lead value tail : Text) → Prop) : Prop :=
  ∀ text reading, pattern text = some reading ↔
    form reading.lead reading.value reading.tail ∧ text = reading.text ++ reading.rest

/-- No piece of the form lies strictly inside another one. -/
def Unnested (form : (lead value tail : Text) → Prop) : Prop :=
  ∀ {lead value tail lead' value' tail' front back : Text},
    form lead value tail → form lead' value' tail' →
    lead ++ value ++ tail = front ++ (lead' ++ value' ++ tail') ++ back → front = [] ∨ back = []

variable {pattern : Pattern} {form : Text → Text → Text → Prop} {text more : Text}
  {reading : Reading}

theorem move_eq_take_iff {length : Nat} :
    pattern.move text = .take reading length ↔
      pattern text = some reading ∧ length = reading.text.length := by
  rw [move]
  cases pattern text with
  | none => simp
  | some found =>
      constructor
      · intro h
        obtain ⟨rfl, rfl⟩ := Move.take.inj h
        exact ⟨rfl, rfl⟩
      · rintro ⟨⟨⟩, rfl⟩
        rfl

theorem move_eq_pass (h : pattern text = none) : pattern.move text = .pass 1 := by
  rw [move, h]

theorem move_ne_stop (pattern : Pattern) (text : Text) : pattern.move text ≠ .stop := by
  rw [move]
  split <;> simp

theorem scanFrom_of_none {before : Text} {c : Char} (h : pattern (c :: text) = none) :
    scanFrom pattern.move 0 before (c :: text) = scanFrom pattern.move 0 (c :: before) text := by
  rw [scanFrom, move_eq_pass h]

namespace Reads

theorem form_of_eq_some (hreads : pattern.Reads form) (h : pattern text = some reading) :
    form reading.lead reading.value reading.tail :=
  ((hreads text reading).mp h).1

theorem text_eq (hreads : pattern.Reads form) (h : pattern text = some reading) :
    text = reading.text ++ reading.rest :=
  ((hreads text reading).mp h).2

theorem of_form (hreads : pattern.Reads form) {lead value tail : Text}
    (hform : form lead value tail) (rest : Text) :
    pattern (lead ++ value ++ tail ++ rest) = some ⟨lead, value, tail, rest⟩ :=
  (hreads _ _).mpr ⟨hform, rfl⟩

theorem append (hreads : pattern.Reads form) (h : pattern text = some reading) (more : Text) :
    pattern (text ++ more) = some { reading with rest := reading.rest ++ more } := by
  have hform := hreads.form_of_eq_some h
  have htext := hreads.text_eq h
  refine (hreads _ _).mpr ⟨hform, ?_⟩
  rw [htext, List.append_assoc]
  rfl

theorem eq_none_of_append (hreads : pattern.Reads form) (h : pattern (text ++ more) = none) :
    pattern text = none := by
  by_contra hsome
  obtain ⟨reading, hreading⟩ := Option.ne_none_iff_exists'.mp hsome
  rw [hreads.append hreading more] at h
  contradiction

/-- A piece that lies in the front part of a text is read there. -/
theorem exists_of_length_le (hreads : pattern.Reads form) {front back : Text}
    (h : pattern (front ++ back) = some reading) (hlength : reading.text.length ≤ front.length) :
    ∃ later, front = reading.text ++ later ∧ reading.rest = later ++ back ∧
      pattern front = some { reading with rest := later } := by
  obtain ⟨hform, htext⟩ := (hreads _ _).mp h
  obtain ⟨later, rfl⟩ : reading.text <+: front :=
    List.prefix_of_prefix_length_le ⟨reading.rest, htext.symm⟩ (List.prefix_append _ back) hlength
  rw [List.append_assoc] at htext
  exact ⟨later, rfl, (List.append_cancel_left htext).symm, (hreads _ _).mpr ⟨hform, rfl⟩⟩

/-- A text whose reading takes more text to come about is a piece cut short. -/
theorem cut (hreads : pattern.Reads form) (hnone : pattern text = none)
    (h : pattern (text ++ more) = some reading) :
    ∃ missing, missing ≠ [] ∧ reading.text = text ++ missing := by
  have hpiece := hreads.text_eq h
  have hform := hreads.form_of_eq_some h
  have unread : ∀ rest, text ≠ reading.text ++ rest := by
    intro rest htext
    have hread := hreads.of_form hform rest
    rw [← Reading.text, ← htext, hnone] at hread
    contradiction
  rcases List.append_eq_append_iff.mp hpiece with ⟨missing, hmissing, -⟩ | ⟨rest, hrest, -⟩
  · refine ⟨missing, ?_, hmissing⟩
    rintro rfl
    exact unread [] (by simpa using hmissing.symm)
  · exact absurd hrest (unread rest)

/-- A piece cut short holds no other piece. -/
theorem eq_none_of_cut (hreads : pattern.Reads form) (hform : Unnested form)
    (hnone : pattern text = none) (h : pattern (text ++ more) = some reading)
    {passed ahead : Text} (htext : text = passed ++ ahead) : pattern ahead = none := by
  obtain ⟨missing, hmissing, hpiece⟩ := hreads.cut hnone h
  apply Option.eq_none_iff_forall_ne_some.mpr
  intro inner hinner
  have hahead := hreads.text_eq hinner
  have hsplit : reading.lead ++ reading.value ++ reading.tail =
      passed ++ (inner.lead ++ inner.value ++ inner.tail) ++ (inner.rest ++ missing) := by
    change reading.text = passed ++ inner.text ++ (inner.rest ++ missing)
    rw [hpiece, htext, hahead]
    simp only [List.append_assoc]
  rcases hform (hreads.form_of_eq_some h) (hreads.form_of_eq_some hinner) hsplit with hfront | hback
  · rw [hfront, List.nil_append] at htext
    rw [htext, hinner] at hnone
    contradiction
  · exact hmissing (List.append_eq_nil_iff.mp hback).2

/-- Whether a text holds no piece, or its reading is settled, either way more text keeps it so or
there is nothing to be found in the text at all. -/
theorem none_append_or (hreads : pattern.Reads form) (hform : Unnested form)
    (hnone : pattern text = none) :
    (∀ more, pattern (text ++ more) = none) ∨
      ∀ passed ahead, text = passed ++ ahead → pattern ahead = none := by
  by_cases hmore : ∀ more, pattern (text ++ more) = none
  · exact .inl hmore
  · obtain ⟨more, hmore⟩ := Classical.not_forall.mp hmore
    obtain ⟨reading, hreading⟩ := Option.ne_none_iff_exists'.mp hmore
    exact .inr fun passed ahead htext => hreads.eq_none_of_cut hform hnone hreading htext

theorem steady_move (hreads : pattern.Reads form) (hform : Unnested form) :
    Steady Reading.value pattern.move where
  take := by
    intro text reading length hmove
    obtain ⟨hreading, rfl⟩ := move_eq_take_iff.mp hmove
    refine ⟨?_, fun more => ⟨{ reading with rest := reading.rest ++ more }, ?_, rfl⟩⟩
    · rw [congrArg List.length (hreads.text_eq hreading), List.length_append]
      omega
    · exact move_eq_take_iff.mpr ⟨hreads.append hreading more, rfl⟩
  pass := by
    intro text length hmove
    rw [move] at hmove
    split at hmove
    · next hnone =>
        obtain rfl := Move.pass.inj hmove
        cases text with
        | nil => exact .inr fun _ => rfl
        | cons c text =>
            rcases hreads.none_append_or hform hnone with hmore | hnothing
            · refine .inl ⟨by simp, fun more => ?_⟩
              rw [move, hmore more]
            · refine .inr fun before => scanFrom_eq_nil fun passed ahead htext found length => ?_
              rw [move, hnothing passed ahead htext]
              simp
    · contradiction

end Reads

/-! ### Forms that cannot lie inside one another -/

theorem unnested_of_first (c : Char)
    (h : ∀ {lead value tail}, form lead value tail →
      ∃ rest, lead ++ value ++ tail = c :: rest ∧ c ∉ rest) : Unnested form := by
  intro lead value tail lead' value' tail' front back hform hform' hsplit
  obtain ⟨rest, houter, hc⟩ := h hform
  obtain ⟨rest', hinner, -⟩ := h hform'
  rw [houter, hinner] at hsplit
  cases front with
  | nil => exact .inl rfl
  | cons d front =>
      have hrest : rest = front ++ c :: rest' ++ back := (List.cons.inj hsplit).2
      exact absurd (by simp [hrest]) hc

theorem unnested_of_last (c : Char)
    (h : ∀ {lead value tail}, form lead value tail →
      ∃ start, lead ++ value ++ tail = start ++ [c] ∧ c ∉ start) : Unnested form := by
  intro lead value tail lead' value' tail' front back hform hform' hsplit
  obtain ⟨start, houter, hc⟩ := h hform
  obtain ⟨start', hinner, -⟩ := h hform'
  rw [houter, hinner] at hsplit
  rcases List.eq_nil_or_concat back with hback | ⟨back, d, rfl⟩
  · exact .inr hback
  · have hstart : start = front ++ (start' ++ [c]) ++ back := by
      rw [List.concat_eq_append, ← List.append_assoc] at hsplit
      exact (List.append_inj' hsplit rfl).1
    exact absurd (by simp [hstart]) hc

/-! ### Words after a keyword -/

/-- The parts of a keyword and a word before a mark. -/
structure WordForm (keyword : Text) (spaced : Bool) (accepts : Char → Bool) (mark : Char)
    (lead value tail : Text) : Prop where
  lead : ∃ gap, lead = keyword ++ gap ∧ Blank gap ∧ (spaced = true → gap ≠ [])
  value_ne_nil : value ≠ []
  value : ∀ c ∈ value, accepts c = true
  tail : ∃ gap, tail = gap ++ [mark] ∧ Blank gap

variable {keyword : Text} {spaced : Bool} {accepts : Char → Bool} {mark : Char}

theorem guard_spaced {gap : Text} :
    (spaced && gap.isEmpty) = false ↔ (spaced = true → gap ≠ []) := by
  cases spaced <;> cases gap <;> simp

theorem word_eq_some_iff :
    word keyword spaced accepts mark text = some reading ↔
      ∃ named, text = keyword ++ named ∧ (spaced = true → named.takeWhile isBlank ≠ []) ∧
        (named.dropWhile isBlank).takeWhile accepts ≠ [] ∧
      ∃ rest, ((named.dropWhile isBlank).dropWhile accepts).dropWhile isBlank = mark :: rest ∧
        ⟨keyword ++ named.takeWhile isBlank, (named.dropWhile isBlank).takeWhile accepts,
          ((named.dropWhile isBlank).dropWhile accepts).takeWhile isBlank ++ [mark],
          rest⟩ = reading := by
  simp only [word, Option.bind_eq_bind, Option.bind_eq_some_iff, Option.guard_eq_some',
    Text.after?_eq_some_iff, Option.some.injEq, guard_spaced, Bool.not_eq_true',
    List.isEmpty_eq_false_iff, List.singleton_append, exists_const]

theorem word_reads (haccepts : ∀ c, accepts c = true → isBlank c = false)
    (hmark : accepts mark = false) (hblank : isBlank mark = false) :
    (word keyword spaced accepts mark).Reads (WordForm keyword spaced accepts mark) := by
  intro text reading
  rw [word_eq_some_iff]
  constructor
  · rintro ⟨named, htext, hgap, hvalue, rest, hclosed, rfl⟩
    have hclosed := Text.eq_takeWhile_append hclosed
    refine ⟨⟨⟨_, rfl, fun c => List.mem_takeWhile_imp, hgap⟩, hvalue,
      fun c => List.mem_takeWhile_imp, _, rfl, fun c => List.mem_takeWhile_imp⟩, ?_⟩
    simp only [Reading.text, List.append_assoc, List.cons_append, List.nil_append]
    rw [← hclosed, List.takeWhile_append_dropWhile, List.takeWhile_append_dropWhile, htext]
  · obtain ⟨lead, value, tail, rest⟩ := reading
    rintro ⟨⟨⟨gap, hlead, hgap, hspaced⟩, hne, hvalue, ⟨space, htail, hspace⟩⟩, htext⟩
    dsimp only at hlead hne hvalue htail htext
    subst hlead htail htext
    have hworded : ∀ c ∈ (value ++ (space ++ mark :: rest)).head?, isBlank c = false :=
      fun c hc => haccepts c (hvalue c (Text.mem_of_head?_append hne hc))
    have hclosed : ∀ c ∈ (space ++ mark :: rest).head?, accepts c = false := by
      intro c hc
      rcases Text.mem_or_eq_of_head?_append_cons hc with hmem | rfl
      · apply Bool.eq_false_iff.mpr
        intro hword
        have hnot := haccepts c hword
        rw [hspace c hmem] at hnot
        contradiction
      · exact hmark
    refine ⟨gap ++ (value ++ (space ++ mark :: rest)), by simp [Reading.text], ?_, ?_, rest, ?_, ?_⟩
    · rwa [Text.takeWhile_append_of_stop hgap hworded]
    · rwa [Text.dropWhile_append_of_stop hgap hworded, Text.takeWhile_append_of_stop hvalue hclosed]
    · rw [Text.dropWhile_append_of_stop hgap hworded, Text.dropWhile_append_of_stop hvalue hclosed,
        Text.dropWhile_append_cons hspace hblank]
    · rw [Text.takeWhile_append_of_stop hgap hworded, Text.dropWhile_append_of_stop hgap hworded,
        Text.takeWhile_append_of_stop hvalue hclosed, Text.dropWhile_append_of_stop hvalue hclosed,
        Text.takeWhile_append_cons hspace hblank]

section Words

variable {c : Char} {name lead value tail : Text}

/-- A word's piece begins with the one character of its kind. -/
theorem WordForm.exists_cons (hform : WordForm (c :: name) spaced accepts mark lead value tail)
    (hname : c ∉ name) (hc : accepts c = false) (hblank : isBlank c = false) (hmark : c ≠ mark) :
    ∃ rest, lead ++ value ++ tail = c :: rest ∧ c ∉ rest := by
  obtain ⟨⟨gap, rfl, hgap, -⟩, -, hvalue, space, rfl, hspace⟩ := hform
  refine ⟨name ++ (gap ++ (value ++ (space ++ [mark]))), by simp, ?_⟩
  simp only [List.mem_append, List.mem_singleton, not_or]
  refine ⟨hname, fun h => ?_, fun h => ?_, fun h => ?_, hmark⟩
  · simp [hgap c h] at hblank
  · simp [hvalue c h] at hc
  · simp [hspace c h] at hblank

theorem unnested_wordForm (hname : c ∉ name) (hc : accepts c = false) (hblank : isBlank c = false)
    (hmark : c ≠ mark) : Unnested (WordForm (c :: name) spaced accepts mark) :=
  unnested_of_first c fun hform => hform.exists_cons hname hc hblank hmark

end Words

end Stylesheet.Pattern
