import Stylesheet.Directive
import Stylesheet.Proofs.PatternLemmas

/-!
# The forms of directives

What the patterns of directives read, part by part.
-/

namespace Stylesheet

namespace Directive

/-- The parts of a directive whose value stands in quotes. -/
structure QuotedForm (keyword : Text) (spaced : Bool) (lead value tail : Text) : Prop where
  lead : ∃ gap opening, lead = keyword ++ gap ++ [opening] ∧ Blank gap ∧
    (spaced = true → gap ≠ []) ∧ isQuote opening = true
  value_ne_nil : value ≠ []
  value : ∀ c ∈ value, isQuote c = false
  tail : ∃ closing gap, tail = closing :: gap ++ [';'] ∧ isQuote closing = true ∧ Blank gap

theorem quote?_eq_some_iff {text rest : Text} {c : Char} :
    quote? text = some (c, rest) ↔ text = c :: rest ∧ isQuote c = true := by
  cases text with
  | nil => simp [quote?]
  | cons d text =>
      by_cases hd : isQuote d = true
      · simp only [quote?, hd, if_true, Option.some.injEq, Prod.mk.injEq, List.cons.injEq]
        constructor
        · rintro ⟨rfl, rfl⟩
          exact ⟨⟨rfl, rfl⟩, hd⟩
        · exact fun h => h.1
      · simp only [quote?, hd, List.cons.injEq]
        constructor
        · exact fun h => absurd h (by simp)
        · rintro ⟨⟨rfl, rfl⟩, hc⟩
          exact absurd hc hd

theorem not_isBlank_of_isQuote {c : Char} (h : isQuote c = true) : isBlank c = false := by
  simp only [isQuote, Bool.or_eq_true, decide_eq_true_eq] at h
  rcases h with rfl | rfl <;> decide

theorem quoted_eq_some_iff {keyword text : Text} {spaced : Bool} {reading : Reading} :
    quoted keyword spaced text = some reading ↔
      ∃ named, text = keyword ++ named ∧
        (spaced = true → named.takeWhile isBlank ≠ []) ∧
      ∃ opening valued, named.dropWhile isBlank = opening :: valued ∧ isQuote opening = true ∧
        valued.takeWhile (!isQuote ·) ≠ [] ∧
      ∃ closing closed, valued.dropWhile (!isQuote ·) = closing :: closed ∧
        isQuote closing = true ∧
      ∃ rest, closed.dropWhile isBlank = ';' :: rest ∧
        ⟨keyword ++ named.takeWhile isBlank ++ [opening], valued.takeWhile (!isQuote ·),
          closing :: closed.takeWhile isBlank ++ [';'], rest⟩ = reading := by
  simp only [quoted, Option.bind_eq_bind, Option.bind_eq_some_iff, Option.guard_eq_some',
    Prod.exists, Text.after?_eq_some_iff, quote?_eq_some_iff, Option.some.injEq, Pattern.guard_spaced,
    Bool.not_eq_true', List.isEmpty_eq_false_iff, List.singleton_append, exists_const, and_assoc]

theorem quoted_reads (keyword : Text) (spaced : Bool) :
    (quoted keyword spaced).Reads (QuotedForm keyword spaced) := by
  intro text reading
  rw [quoted_eq_some_iff]
  constructor
  · rintro ⟨named, htext, hgap, opening, valued, hnamed, hopening, hvalue, closing, closed,
      hvalued, hclosing, rest, hclosed, rfl⟩
    have hnamed := Text.eq_takeWhile_append hnamed
    have hvalued := Text.eq_takeWhile_append hvalued
    have hclosed := Text.eq_takeWhile_append hclosed
    refine ⟨⟨⟨_, opening, rfl, fun c => List.mem_takeWhile_imp, hgap, hopening⟩, hvalue, ?_,
      closing, _, rfl, hclosing, fun c => List.mem_takeWhile_imp⟩, ?_⟩
    · intro c hc
      simpa using List.mem_takeWhile_imp hc
    · simp only [Reading.text, List.append_assoc, List.cons_append, List.nil_append]
      rw [← hclosed, ← hvalued, ← hnamed, htext]
  · obtain ⟨lead, value, tail, rest⟩ := reading
    rintro ⟨⟨⟨gap, opening, hlead, hgap, hspaced, hopening⟩, hne, hvalue,
      ⟨closing, space, htail, hclosing, hspace⟩⟩, htext⟩
    dsimp only at hlead hne hvalue htail htext
    subst hlead htail htext
    have hopen := not_isBlank_of_isQuote hopening
    have hvalue : ∀ c ∈ value, (!isQuote c) = true := by simpa using hvalue
    have hclose : (!isQuote closing) = false := by simpa using hclosing
    have hend : isBlank ';' = false := by decide
    refine ⟨gap ++ opening :: (value ++ closing :: (space ++ ';' :: rest)),
      by simp [Reading.text], ?_, opening, value ++ closing :: (space ++ ';' :: rest),
      Text.dropWhile_append_cons hgap hopen, hopening, ?_, closing, space ++ ';' :: rest,
      Text.dropWhile_append_cons hvalue hclose, hclosing, rest,
      Text.dropWhile_append_cons hspace hend, ?_⟩
    · rwa [Text.takeWhile_append_cons hgap hopen]
    · rwa [Text.takeWhile_append_cons hvalue hclose]
    · rw [Text.takeWhile_append_cons hgap hopen, Text.takeWhile_append_cons hvalue hclose,
        Text.takeWhile_append_cons hspace hend]

theorem not_isQuote_of_isBlank {c : Char} (h : isBlank c = true) : isQuote c = false :=
  Bool.eq_false_iff.mpr fun hquote => by simp [not_isBlank_of_isQuote hquote] at h

theorem QuotedForm.countP_isQuote {keyword lead value tail : Text} {spaced : Bool}
    (hkeyword : keyword.countP isQuote = 0) (hform : QuotedForm keyword spaced lead value tail) :
    (lead ++ value ++ tail).countP isQuote = 2 := by
  obtain ⟨⟨gap, opening, rfl, hgap, -, hopening⟩, -, hvalue, closing, space, rfl, hclosing,
    hspace⟩ := hform
  have hnone : ∀ {blanks : Text}, Blank blanks → blanks.countP isQuote = 0 := fun hblank =>
    List.countP_eq_zero.mpr fun c hc => by simp [not_isQuote_of_isBlank (hblank c hc)]
  have hvalue : value.countP isQuote = 0 :=
    List.countP_eq_zero.mpr fun c hc => by simp [hvalue c hc]
  have hmark : isQuote ';' = false := by decide
  simp [hkeyword, hnone hgap, hnone hspace, hvalue, hopening, hclosing, hmark]

theorem QuotedForm.exists_takeWhile {keyword lead value tail : Text} {spaced : Bool}
    (hkeyword : ∀ c ∈ keyword, isQuote c = false) (hform : QuotedForm keyword spaced lead value tail)
    (rest : Text) :
    ∃ gap, Blank gap ∧
      (lead ++ value ++ tail ++ rest).takeWhile (!isQuote ·) = keyword ++ gap := by
  obtain ⟨⟨gap, opening, rfl, hgap, -, hopening⟩, -⟩ := hform
  have hfront : ∀ c ∈ keyword ++ gap, (!isQuote c) = true := by
    intro c hc
    rcases List.mem_append.mp hc with hc | hc
    · simp [hkeyword c hc]
    · simp [not_isQuote_of_isBlank (hgap c hc)]
  refine ⟨gap, hgap, ?_⟩
  simp only [List.append_assoc, List.singleton_append]
  rw [← List.append_assoc]
  exact Text.takeWhile_append_cons hfront (by simp [hopening])

/-- Two quoted directives never lie inside one another: the inner one would leave no quote for what
stands before it, and before the first quote there is but one keyword. -/
theorem unnested_quotedForm {c : Char} {name : Text} {spaced : Bool}
    (hname : (c :: name).any isQuote = false) (hblank : isBlank c = false) (hc : c ∉ name) :
    Pattern.Unnested (QuotedForm (c :: name) spaced) := by
  intro lead value tail lead' value' tail' front back hform hform' hsplit
  have hname : ∀ d ∈ c :: name, isQuote d = false := by
    simpa using hname
  have hkeyword : (c :: name).countP isQuote = 0 :=
    List.countP_eq_zero.mpr fun d hd => by simp [hname d hd]
  have hcount := congrArg (List.countP isQuote) hsplit
  rw [hform.countP_isQuote hkeyword, List.countP_append, List.countP_append,
    hform'.countP_isQuote hkeyword] at hcount
  have hfront : ∀ d ∈ front, (!isQuote d) = true := by
    have hzero : front.countP isQuote = 0 := by omega
    intro d hd
    simpa using List.countP_eq_zero.mp hzero d hd
  obtain ⟨gap, hgap, houter⟩ := hform.exists_takeWhile hname []
  obtain ⟨gap', -, hinner⟩ := hform'.exists_takeWhile hname back
  rw [List.append_nil, hsplit, List.append_assoc, List.takeWhile_append_of_pos hfront,
    hinner] at houter
  cases front with
  | nil => exact .inl rfl
  | cons d front =>
      have hname : front ++ (c :: name ++ gap') = name ++ gap := (List.cons.inj houter).2
      have hmem : c ∈ name ++ gap := by
        rw [← hname]
        simp
      rcases List.mem_append.mp hmem with hmem | hmem
      · exact absurd hmem hc
      · rw [hgap c hmem] at hblank
        contradiction

theorem not_isBlank_of_isWordChar {c : Char} (h : isWordChar c = true) : isBlank c = false := by
  by_contra hblank
  simp only [Bool.not_eq_false, isBlank, Bool.or_eq_true, decide_eq_true_eq] at hblank
  rcases hblank with ((((rfl | rfl) | rfl) | rfl) | rfl) | rfl <;> revert h <;> decide

theorem charset_steady : Steady Reading.value (Pattern.move charset) :=
  (quoted_reads _ _).steady_move (unnested_quotedForm (by decide) (by decide) (by decide))

theorem imports_steady : Steady Reading.value (Pattern.move imports) :=
  (quoted_reads _ _).steady_move (unnested_quotedForm (by decide) (by decide) (by decide))

theorem config_steady : Steady Reading.value (Pattern.move config) :=
  (quoted_reads _ _).steady_move (unnested_quotedForm (by decide) (by decide) (by decide))

theorem tailwind_reads :
    tailwind.Reads (Pattern.WordForm "@tailwind".toList false isWordChar ';') :=
  Pattern.word_reads (fun _ => not_isBlank_of_isWordChar) (by decide) (by decide)

theorem tailwind_steady : Steady Reading.value (Pattern.move tailwind) :=
  tailwind_reads.steady_move
    (Pattern.unnested_wordForm (by decide) (by decide) (by decide) (by decide))

end Directive

end Stylesheet
