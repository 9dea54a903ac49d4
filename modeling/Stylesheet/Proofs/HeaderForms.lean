import Stylesheet.Keyframes
import Stylesheet.Media
import Stylesheet.Proofs.DirectiveForms

/-!
# The forms of headers

What the headers of blocks read, part by part.
-/

namespace Stylesheet

namespace Keyframes

theorem not_isBlank_of_isNameChar {c : Char} (h : isNameChar c = true) : isBlank c = false := by
  by_contra hblank
  simp only [Bool.not_eq_false, isBlank, Bool.or_eq_true, decide_eq_true_eq] at hblank
  rcases hblank with ((((rfl | rfl) | rfl) | rfl) | rfl) | rfl <;> revert h <;> decide

theorem header_reads :
    header.Reads (Pattern.WordForm "@keyframes".toList true isNameChar '{') :=
  Pattern.word_reads (fun _ => not_isBlank_of_isNameChar) (by decide) (by decide)

theorem unnested_header :
    Pattern.Unnested (Pattern.WordForm "@keyframes".toList true isNameChar '{') :=
  Pattern.unnested_wordForm (by decide) (by decide) (by decide) (by decide)

end Keyframes

namespace MediaBlock

/-- The parts of the header of a media block. A query begins after the blanks, unless it is one. -/
structure HeaderForm (lead query tail : Text) : Prop where
  lead_eq : ∃ gap, lead = "@media".toList ++ gap ∧ Blank gap ∧ gap ≠ []
  begins : (query ≠ [] ∧ ∀ c ∈ query.head?, isBlank c = false) ∨
    ∃ c, query = [c] ∧ isBlank c = true
  not_mem : '{' ∉ query
  tail_eq : tail = ['{']

theorem header_eq_some_iff {text : Text} {reading : Reading} :
    header text = some reading ↔
      ∃ spaced, text = "@media".toList ++ spaced ∧
      ∃ rest, (spaced.dropWhile isBlank).dropWhile (· ≠ '{') = '{' :: rest ∧
        spaced.takeWhile isBlank ≠ [] ∧
        (((spaced.dropWhile isBlank).takeWhile (· ≠ '{') = [] ∧
            1 < (spaced.takeWhile isBlank).length ∧
            ⟨"@media".toList ++ (spaced.takeWhile isBlank).dropLast,
              (spaced.takeWhile isBlank).drop ((spaced.takeWhile isBlank).length - 1),
              ['{'], rest⟩ = reading) ∨
          ((spaced.dropWhile isBlank).takeWhile (· ≠ '{') ≠ [] ∧
            ⟨"@media".toList ++ spaced.takeWhile isBlank,
              (spaced.dropWhile isBlank).takeWhile (· ≠ '{'), ['{'], rest⟩ = reading)) := by
  simp only [header, Option.bind_eq_bind, Option.bind_eq_some_iff, Option.guard_eq_some',
    Text.after?_eq_some_iff, Option.some.injEq, Bool.not_eq_true', List.isEmpty_eq_false_iff,
    List.singleton_append, exists_const, List.isEmpty_iff, ite_eq_iff]

theorem form_of_header {text : Text} {reading : Reading} (h : header text = some reading) :
    HeaderForm reading.lead reading.value reading.tail ∧ text = reading.text ++ reading.rest := by
  rw [header_eq_some_iff] at h
  obtain ⟨spaced, htext, rest, hopened, hgap, ⟨hquery, hlong, rfl⟩ | ⟨hquery, rfl⟩⟩ := h
  · have hopened := Text.eq_takeWhile_append hopened
    rw [hquery, List.nil_append] at hopened
    have hspaced := Text.eq_takeWhile_append hopened
    have hblank : Blank (spaced.takeWhile isBlank) := fun c => List.mem_takeWhile_imp
    generalize spaced.takeWhile isBlank = gap at *
    obtain rfl | ⟨front, c, rfl⟩ := List.eq_nil_or_concat gap
    · contradiction
    · simp only [List.concat_eq_append, List.length_append, List.length_singleton,
        Nat.add_sub_cancel, List.dropLast_concat, List.drop_left] at *
      have hc := hblank c (by simp)
      refine ⟨⟨⟨front, rfl, fun d hd => hblank d (by simp [hd]), ?_⟩, .inr ⟨c, rfl, hc⟩, ?_, rfl⟩, ?_⟩
      · rintro rfl
        simp at hlong
      · rw [List.mem_singleton]
        rintro rfl
        revert hc
        decide
      · rw [htext, hspaced]
        simp [Reading.text]
  · have hqueried := Text.eq_takeWhile_append hopened
    refine ⟨⟨⟨_, rfl, fun c => List.mem_takeWhile_imp, hgap⟩, .inl ⟨hquery, ?_⟩, ?_, rfl⟩, ?_⟩
    · cases hdrop : spaced.dropWhile isBlank with
      | nil => simp
      | cons d queried =>
          have hd := Text.not_of_dropWhile_eq_cons hdrop
          rw [hdrop] at hquery
          by_cases hbrace : d = '{'
          · simp [hbrace] at hquery
          · simp [hbrace, hd]
    · intro hbrace
      simpa using List.mem_takeWhile_imp hbrace
    · simp only [Reading.text, List.append_assoc, List.singleton_append]
      rw [← hqueried, List.takeWhile_append_dropWhile, htext]

section Parts

variable {gap : Text} (hgap : Blank gap) (hne : gap ≠ [])

include hgap hne

theorem header_query {query : Text} (hquery : query ≠ [])
    (hhead : ∀ c ∈ query.head?, isBlank c = false) (hbrace : '{' ∉ query) (rest : Text) :
    header ("@media".toList ++ (gap ++ (query ++ '{' :: rest))) =
      some ⟨"@media".toList ++ gap, query, ['{'], rest⟩ := by
  have hqueried : ∀ c ∈ (query ++ '{' :: rest).head?, isBlank c = false := by
    rw [List.head?_append_of_ne_nil _ hquery]
    exact hhead
  have hrun : ∀ c ∈ query, decide (c ≠ '{') = true := by
    intro c hc
    simpa using ne_of_mem_of_not_mem hc hbrace
  have hstop : decide ('{' ≠ '{') = false := by decide
  rw [header_eq_some_iff]
  refine ⟨gap ++ (query ++ '{' :: rest), rfl, rest, ?_, ?_, .inr ⟨?_, ?_⟩⟩
  · rw [Text.dropWhile_append_of_stop hgap hqueried, Text.dropWhile_append_cons hrun hstop]
  · rwa [Text.takeWhile_append_of_stop hgap hqueried]
  · rwa [Text.dropWhile_append_of_stop hgap hqueried, Text.takeWhile_append_cons hrun hstop]
  · rw [Text.takeWhile_append_of_stop hgap hqueried, Text.dropWhile_append_of_stop hgap hqueried,
      Text.takeWhile_append_cons hrun hstop]

theorem header_blanks {c : Char} (hc : isBlank c = true) (rest : Text) :
    header ("@media".toList ++ (gap ++ [c] ++ '{' :: rest)) =
      some ⟨"@media".toList ++ gap, [c], ['{'], rest⟩ := by
  have hopen : isBlank '{' = false := by decide
  have hall : Blank (gap ++ [c]) := hgap.append (by simpa [Blank] using hc)
  have htake : (gap ++ [c] ++ '{' :: rest).takeWhile isBlank = gap ++ [c] :=
    Text.takeWhile_append_cons hall hopen
  have hdrop : (gap ++ [c] ++ '{' :: rest).dropWhile isBlank = '{' :: rest :=
    Text.dropWhile_append_cons hall hopen
  have hlength := List.length_pos_iff.mpr hne
  rw [header_eq_some_iff]
  refine ⟨gap ++ [c] ++ '{' :: rest, rfl, rest, ?_, ?_, .inl ⟨?_, ?_, ?_⟩⟩
  · rw [hdrop]
    simp
  · rw [htake]
    simp
  · rw [hdrop]
    simp
  · rw [htake, List.length_append]
    simpa using hlength
  · rw [htake]
    simp

end Parts

theorem header_reads : header.Reads HeaderForm := by
  intro text reading
  constructor
  · exact form_of_header
  · obtain ⟨lead, query, tail, rest⟩ := reading
    rintro ⟨⟨⟨gap, hlead, hgap, hne⟩, hbegins, hbrace, htail⟩, htext⟩
    dsimp only at hlead hbegins hbrace htail htext
    subst hlead htail htext
    rcases hbegins with ⟨hquery, hhead⟩ | ⟨c, rfl, hc⟩
    · have hheader := header_query hgap hne hquery hhead hbrace rest
      simpa only [Reading.text, List.append_assoc, List.singleton_append] using hheader
    · have hheader := header_blanks hgap hne hc rest
      simpa only [Reading.text, List.append_assoc, List.cons_append, List.nil_append] using hheader

theorem unnested_header : Pattern.Unnested HeaderForm := by
  refine Pattern.unnested_of_last '{' fun {lead query tail} hform => ?_
  obtain ⟨⟨gap, rfl, hgap, -⟩, -, hbrace, rfl⟩ := hform
  refine ⟨"@media".toList ++ gap ++ query, rfl, ?_⟩
  simp only [List.mem_append, not_or]
  refine ⟨⟨by decide, fun h => ?_⟩, hbrace⟩
  have hblank := hgap _ h
  revert hblank
  decide

theorem runUpToBrace_eq_some_iff {accepts : Char → Bool} (hbrace : accepts '{' = false)
    {text run rest : Text} :
    runUpToBrace accepts text = some (run, rest) ↔
      text = run ++ '{' :: rest ∧ run ≠ [] ∧ ∀ c ∈ run, accepts c = true := by
  simp only [runUpToBrace, Option.bind_eq_bind, Option.bind_eq_some_iff, Option.guard_eq_some',
    Text.after?_eq_some_iff, Option.some.injEq, Bool.not_eq_true', List.isEmpty_eq_false_iff,
    List.singleton_append, exists_const, Prod.mk.injEq]
  constructor
  · rintro ⟨hne, rest', hrest, rfl, rfl⟩
    exact ⟨Text.eq_takeWhile_append hrest, hne, fun c => List.mem_takeWhile_imp⟩
  · rintro ⟨rfl, hne, hrun⟩
    rw [Text.takeWhile_append_cons hrun hbrace, Text.dropWhile_append_cons hrun hbrace]
    exact ⟨hne, rest, rfl, rfl, rfl⟩

def isSelectorChar (c : Char) : Bool :=
  c ≠ '{' && c ≠ '@'

/-- The parts of a header inside a media block: that of a nested at-rule, or a selector. -/
structure InnerForm (lead run tail : Text) : Prop where
  lead_eq : lead = []
  run : (∃ name, run = '@' :: name ∧ name ≠ [] ∧ ∀ c ∈ name, isHeaderChar c = true) ∨
    (run ≠ [] ∧ ∀ c ∈ run, isSelectorChar c = true)
  tail_eq : tail = ['{']

theorem innerHeader_atRule (text : Text) :
    innerHeader ('@' :: text) = (runUpToBrace isHeaderChar text).map fun (run, rest) =>
      ⟨[], '@' :: run, ['{'], rest⟩ :=
  rfl

theorem innerHeader_selector {text : Text} (h : text.head? ≠ some '@') :
    innerHeader text = (runUpToBrace isSelectorChar text).map fun (run, rest) =>
      ⟨[], run, ['{'], rest⟩ := by
  unfold innerHeader
  split
  · simp at h
  · rfl

theorem innerHeader_reads : innerHeader.Reads InnerForm := by
  intro text reading
  have hheader : isHeaderChar '{' = false := by decide
  have hselector : isSelectorChar '{' = false := by decide
  by_cases hat : text.head? = some '@'
  · obtain ⟨name, rfl⟩ : ∃ name, text = '@' :: name := List.head?_eq_some_iff.mp hat
    simp only [innerHeader_atRule, Option.map_eq_some_iff, Prod.exists,
      runUpToBrace_eq_some_iff hheader]
    constructor
    · rintro ⟨run, rest, ⟨rfl, hne, hrun⟩, rfl⟩
      exact ⟨⟨rfl, .inl ⟨run, rfl, hne, hrun⟩, rfl⟩, by simp [Reading.text]⟩
    · obtain ⟨lead, value, tail, rest⟩ := reading
      rintro ⟨⟨hlead, ⟨run, hvalue, hne, hrun⟩ | ⟨hne, hvalue⟩, htail⟩, htext⟩
      · dsimp only at hlead hvalue htail htext
        subst hlead hvalue htail
        exact ⟨run, rest, ⟨by simpa [Reading.text] using htext, hne, hrun⟩, rfl⟩
      · dsimp only at hlead hne hvalue htail htext
        subst hlead htail
        obtain ⟨c, run, rfl⟩ := List.exists_cons_of_ne_nil hne
        obtain rfl : '@' = c := by simpa [Reading.text] using (List.cons.inj htext).1
        exact absurd (hvalue '@' (by simp)) (by decide)
  · simp only [innerHeader_selector hat, Option.map_eq_some_iff, Prod.exists,
      runUpToBrace_eq_some_iff hselector]
    constructor
    · rintro ⟨run, rest, ⟨rfl, hne, hrun⟩, rfl⟩
      exact ⟨⟨rfl, .inr ⟨hne, hrun⟩, rfl⟩, by simp [Reading.text]⟩
    · obtain ⟨lead, value, tail, rest⟩ := reading
      rintro ⟨⟨hlead, ⟨run, hvalue, hne, hrun⟩ | ⟨hne, hvalue⟩, htail⟩, htext⟩
      · dsimp only at hlead hvalue htail htext
        subst hlead hvalue htail htext
        exact absurd rfl hat
      · dsimp only at hlead hne hvalue htail htext
        subst hlead htail
        exact ⟨value, rest, ⟨by simpa [Reading.text] using htext, hne, hvalue⟩, rfl⟩

end MediaBlock

end Stylesheet
