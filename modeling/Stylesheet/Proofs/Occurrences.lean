import Stylesheet.Proofs.BlockLemmas
import Stylesheet.Proofs.CheckedBlocks
import Stylesheet.Proofs.Walks

/-!
# Occurrences

A search looks at every place of a text that lies in none of its finds. So wherever there is something
to be found, the search finds it, or has found a piece that begins before the place and ends behind it,
or has come to its end before.
-/

namespace Stylesheet

theorem Text.byteSize_pos {text : Text} (h : text ≠ []) : 0 < byteSize text :=
  Nat.lt_of_lt_of_le (List.length_pos_iff.mpr h) (length_le_byteSize text)

namespace Site

variable {α β : Type} {site : Site α} {later : Site β} {source ahead piece : Text}

theorem offset_add_le_of_isSuffix (h : piece.reverse ++ site.before <:+ later.before) :
    site.offset + piece.byteSize ≤ later.offset := by
  obtain ⟨between, hbetween⟩ := h
  rw [offset, offset, ← hbetween, Text.byteSize_append, Text.byteSize_append, Text.byteSize_reverse]
  omega

theorem record_map_eq (h : source = site.before.reverse ++ ahead) (adjacency : Adjacency)
    (f : α → β) : (site.map f).record adjacency =
      ⟨attachedComments source site.offset adjacency, source.lineNumber site.offset,
        f site.content⟩ := by
  have hoffset : site.offset = Text.byteSize site.before.reverse := (Text.byteSize_reverse _).symm
  rw [hoffset, h, attachedComments_append, Text.lineNumber_append, List.reverse_reverse,
    List.count_reverse]
  rfl

end Site

/-- A scan that moves on by one character until it finds a piece of the text, and then goes on behind
the piece. -/
structure Searches {α : Type} (move : Text → Move α) (write : α → Text) : Prop where
  pass : ∀ {text : Text} {length : Nat}, move text = .pass length → length = 1
  take : ∀ {text : Text} {found : α} {length : Nat}, move text = .take found length →
    write found ≠ [] ∧ length = (write found).length ∧ ∃ rest, text = write found ++ rest

/-- A scan comes to `ahead`, and what it has found so far lies in `passed`. -/
structure ComesTo {α : Type} (move : Text → Move α) (write : α → Text) (source passed ahead : Text) :
    Prop where
  source_eq : source = passed ++ ahead
  scan_eq : ∃ finds, scan move source = finds ++ scanFrom move 0 passed.reverse ahead ∧
    ∀ site ∈ finds, (write site.content).reverse ++ site.before <:+ passed.reverse

/-- What a scan makes of the place behind `inner` when it stands before `inner`. -/
inductive Meets {α : Type} (move : Text → Move α) (write : α → Text) : (inner ahead : Text) → Prop
  | here {ahead : Text} : Meets move write [] ahead
  | stops {inner ahead : Text} (stop : move (inner ++ ahead) = .stop) : Meets move write inner ahead
  | covers {inner more rest : Text} (found : α) (begun : inner ≠ []) (unended : more ≠ [])
      (take : move (inner ++ (more ++ rest)) = .take found (inner ++ more).length)
      (write_eq : write found = inner ++ more) : Meets move write inner (more ++ rest)

section Scans

variable {α : Type} {move : Text → Move α} {write : α → Text}
  {source passed inner ahead piece rest text : Text}

namespace Searches

theorem strides (h : Searches move write) : Strides move := by
  intro text htext
  cases hmove : move text with
  | stop => exact .inl rfl
  | pass length =>
      obtain rfl := h.pass hmove
      obtain ⟨c, rest, rfl⟩ := List.exists_cons_of_ne_nil htext
      exact .inr ⟨[c], rest, List.cons_ne_nil _ _, rfl, .inl rfl⟩
  | take found length =>
      obtain ⟨hne, rfl, rest, htext⟩ := h.take hmove
      exact .inr ⟨write found, rest, hne, htext, .inr ⟨found, rfl⟩⟩

theorem write_eq (h : Searches move write) {found : α}
    (hmove : move (piece ++ rest) = .take found piece.length) : write found = piece := by
  obtain ⟨-, hlength, more, htext⟩ := h.take hmove
  exact (List.append_inj htext hlength).1.symm

/-- What is found later lies behind what is found before. -/
theorem pairwise (h : Searches move write) (before text : Text) :
    (scanFrom move 0 before text).Pairwise
      fun site later => (write site.content).reverse ++ site.before <:+ later.before := by
  induction text using h.strides.induction generalizing before with
  | hnil => exact .nil
  | hstop text htext hstop =>
      obtain ⟨c, text, rfl⟩ := List.exists_cons_of_ne_nil htext
      rw [scanFrom, hstop]
      exact .nil
  | hpiece piece rest hpiece hcovers ih =>
      rcases hcovers with hpass | ⟨found, htake⟩
      · rw [scanFrom_pass hpiece hpass]
        exact ih _
      · rw [scanFrom_take hpiece htake]
        refine List.pairwise_cons.mpr ⟨fun later hlater => ?_, ih _⟩
        rw [h.write_eq htake]
        exact before_isSuffix_of_mem_scanFrom hlater

end Searches

namespace ComesTo

theorem start (move : Text → Move α) (write : α → Text) (source : Text) :
    ComesTo move write source [] source where
  source_eq := rfl
  scan_eq := ⟨[], rfl, List.forall_mem_nil _⟩

theorem next (h : ComesTo move write source passed (piece ++ ahead)) (hmove : Searches move write)
    (hpiece : piece ≠ []) (hcovers : (move (piece ++ ahead)).Covers piece) :
    ComesTo move write source (passed ++ piece) ahead where
  source_eq := by rw [h.source_eq, List.append_assoc]
  scan_eq := by
    obtain ⟨finds, hscan, hfinds⟩ := h.scan_eq
    have hbehind : ∀ site ∈ finds,
        (write site.content).reverse ++ site.before <:+ piece.reverse ++ passed.reverse :=
      fun site hsite => (hfinds site hsite).trans (List.suffix_append _ _)
    rw [List.reverse_append]
    rcases hcovers with hpass | ⟨found, htake⟩
    · exact ⟨finds, by rw [hscan, scanFrom_pass hpiece hpass], hbehind⟩
    · refine ⟨finds ++ [⟨passed.reverse, found⟩], ?_, ?_⟩
      · rw [hscan, scanFrom_take hpiece htake, List.append_assoc, List.singleton_append]
      · refine List.forall_mem_append.mpr ⟨hbehind, List.forall_mem_singleton.mpr ?_⟩
        rw [hmove.write_eq htake]

theorem mem_scan (h : ComesTo move write source passed ahead) (hmove : Searches move write) {found : α}
    {length : Nat} (htake : move ahead = .take found length) :
    ⟨passed.reverse, found⟩ ∈ scan move source := by
  obtain ⟨finds, hscan, -⟩ := h.scan_eq
  obtain ⟨hne, rfl, rest, rfl⟩ := hmove.take htake
  rw [hscan, scanFrom_take hne htake]
  exact List.mem_append_right finds List.mem_cons_self

/-- Where a search stops, all that it found lies before. -/
theorem isSuffix_of_stop (h : ComesTo move write source passed ahead) (hstop : move ahead = .stop)
    {site : Site α} (hsite : site ∈ scan move source) :
    (write site.content).reverse ++ site.before <:+ passed.reverse := by
  obtain ⟨finds, hscan, hfinds⟩ := h.scan_eq
  have hnothing : scanFrom move 0 passed.reverse ahead = [] := by
    cases ahead with
    | nil => rfl
    | cons c ahead => rw [scanFrom, hstop]
  rw [hscan, hnothing, List.append_nil] at hsite
  exact hfinds site hsite

end ComesTo

/-- **Places of a text.** A search comes to a place, or it stops before, or the place lies inside of
a piece that it finds. -/
theorem Searches.exists_comesTo (hmove : Searches move write) (front : Text) (hahead : ahead ≠ []) :
    ∃ passed inner, front = passed ++ inner ∧
      ComesTo move write (front ++ ahead) passed (inner ++ ahead) ∧ Meets move write inner ahead := by
  have hfrom : ∀ inner passed, front = passed ++ inner →
      ComesTo move write (front ++ ahead) passed (inner ++ ahead) →
      ∃ passed inner, front = passed ++ inner ∧
        ComesTo move write (front ++ ahead) passed (inner ++ ahead) ∧
        Meets move write inner ahead := by
    intro inner
    induction hlength : inner.length using Nat.strong_induction_on generalizing inner with
    | _ length ih =>
        intro passed hfront hcomes
        by_cases hinner : inner = []
        · subst hinner
          exact ⟨passed, [], hfront, hcomes, .here⟩
        have htext : inner ++ ahead ≠ [] := List.append_ne_nil_of_left_ne_nil hinner _
        rcases hmove.strides _ htext with hstop | ⟨piece, rest, hpiece, hsplit, hcovers⟩
        · exact ⟨passed, inner, hfront, hcomes, .stops hstop⟩
        rcases List.append_eq_append_iff.mp hsplit with ⟨more, rfl, rfl⟩ | ⟨later, rfl, rfl⟩
        · by_cases hmore : more = []
          · -- The piece ends at the place.
            subst hmore
            rw [List.append_nil] at hcovers
            exact ⟨passed ++ inner, [], by rw [hfront, List.append_nil],
              hcomes.next hmove hinner hcovers, .here⟩
          · refine ⟨passed, inner, hfront, hcomes, ?_⟩
            rcases hcovers with hpass | ⟨found, htake⟩
            · have hone := hmove.pass hpass
              have hinnerPositive := List.length_pos_iff.mpr hinner
              have hmorePositive := List.length_pos_iff.mpr hmore
              rw [List.length_append] at hone
              omega
            · have hwrite : write found = inner ++ more :=
                hmove.write_eq (by rw [List.append_assoc]; exact htake)
              exact .covers found hinner hmore htake hwrite
        · rw [List.append_assoc] at hcomes hcovers
          have hshorter : later.length < length := by
            have hpositive := List.length_pos_iff.mpr hpiece
            rw [← hlength, List.length_append]
            omega
          exact ih later.length hshorter later rfl _ (by rw [hfront, List.append_assoc])
            (hcomes.next hmove hpiece hcovers)
  exact hfrom front [] rfl (.start move write _)

end Scans

/-! ### Patterns -/

namespace Pattern

variable {mark : Char} {pattern : Pattern} {front ahead text : Text} {reading : Reading}

theorem Marked.searches (h : pattern.Marked mark) : Searches pattern.move Reading.text where
  pass := by
    intro text length hmove
    rw [move] at hmove
    split at hmove
    · exact (Move.pass.inj hmove).symm
    · contradiction
  take := by
    intro text reading length hmove
    obtain ⟨hreading, rfl⟩ := move_eq_take_iff.mp hmove
    exact ⟨h.text_ne_nil hreading, rfl, reading.rest, (h text reading hreading).1⟩

theorem Marked.ne_nil (hmarked : pattern.Marked mark) (h : pattern ahead = some reading) :
    ahead ≠ [] := by
  rintro rfl
  exact hmarked.text_ne_nil h (List.append_eq_nil_iff.mp (hmarked [] reading h).1.symm).1

/-- An occurrence is a place at which the pattern reads. -/
theorem eq_some_of_mem_occurrences {site : Site Reading} (h : site ∈ pattern.occurrences text) :
    ∃ ahead, text = site.before.reverse ++ ahead ∧ pattern ahead = some site.content := by
  obtain ⟨passed, ahead, length, rfl, hbefore, hmove⟩ := mem_scan h
  exact ⟨ahead, by rw [hbefore, List.reverse_reverse], (move_eq_take_iff.mp hmove).1⟩

theorem Marked.getElem?_of_mem_occurrences (hmarked : pattern.Marked mark) {site : Site Reading}
    (h : site ∈ pattern.occurrences text) {index : Nat} (hindex : index < site.content.text.length) :
    text[site.before.length + index]? = site.content.text[index]? := by
  obtain ⟨ahead, rfl, hreading⟩ := eq_some_of_mem_occurrences h
  have hlength : site.before.length = site.before.reverse.length := List.length_reverse.symm
  rw [(hmarked ahead _ hreading).1, hlength, List.getElem?_append_right (Nat.le_add_right _ _),
    Nat.add_sub_cancel_left, List.getElem?_append_left hindex]

/-- **Occurrences.** Where a pattern reads it occurs, or the place lies inside of an occurrence that
begins before. -/
theorem Marked.mem_occurrences_or (hmarked : pattern.Marked mark) (h : pattern ahead = some reading)
    (front : Text) :
    ⟨front.reverse, reading⟩ ∈ pattern.occurrences (front ++ ahead) ∨
      ∃ site ∈ pattern.occurrences (front ++ ahead), ∃ inner more rest,
        front = site.before.reverse ++ inner ∧ ahead = more ++ rest ∧ inner ≠ [] ∧ more ≠ [] ∧
        site.content.text = inner ++ more := by
  have hahead := hmarked.ne_nil h
  obtain ⟨passed, inner, rfl, hcomes, hmeets⟩ := hmarked.searches.exists_comesTo front hahead
  cases hmeets with
  | here =>
      rw [List.append_nil]
      rw [List.append_nil] at hcomes
      exact .inl (hcomes.mem_scan hmarked.searches (move_eq_take_iff.mpr ⟨h, rfl⟩))
  | stops hstop => exact absurd hstop (move_ne_stop pattern _)
  | covers found hinner hmore htake hwrite =>
      exact .inr ⟨⟨passed.reverse, found⟩, hcomes.mem_scan hmarked.searches htake, _, _, _,
        by rw [List.reverse_reverse], rfl, hinner, hmore, hwrite⟩

/-- A pattern whose pieces have their first character nowhere else occurs wherever it reads. -/
theorem Marked.mem_occurrences_iff (hmarked : pattern.Marked mark) {c : Char}
    (hfirst : ∀ text reading, pattern text = some reading →
      ∃ rest, reading.text = c :: rest ∧ c ∉ rest) {site : Site Reading} :
    site ∈ pattern.occurrences text ↔
      ∃ ahead, text = site.before.reverse ++ ahead ∧ pattern ahead = some site.content := by
  refine ⟨eq_some_of_mem_occurrences, ?_⟩
  rintro ⟨ahead, rfl, hreading⟩
  rcases hmarked.mem_occurrences_or hreading site.before.reverse with
    hmem | ⟨other, hother, inner, more, rest, -, rfl, hinner, hmore, hpiece⟩
  · rwa [List.reverse_reverse] at hmem
  · -- The other piece would hold the first character twice.
    obtain ⟨otherAhead, -, hotherReading⟩ := eq_some_of_mem_occurrences hother
    obtain ⟨tail, htail, hc⟩ := hfirst _ _ hotherReading
    obtain ⟨piece, hcons, -⟩ := hfirst _ _ hreading
    obtain ⟨d, more, rfl⟩ := List.exists_cons_of_ne_nil hmore
    obtain ⟨e, inner, rfl⟩ := List.exists_cons_of_ne_nil hinner
    have hahead := (hmarked _ _ hreading).1
    rw [hcons] at hahead
    obtain rfl : d = c := (List.cons.inj hahead).1
    rw [hpiece] at htail
    exact absurd (by rw [← (List.cons.inj htail).2]; simp) hc

/-- Where no piece lies across a cut of the text, a scan of the text comes to the cut. -/
theorem Marked.scanFrom_isSuffix (hmarked : pattern.Marked mark) (front back : Text)
    (h : ∀ site ∈ pattern.occurrences (front ++ back), site.before.length < front.length →
      site.before.length + site.content.text.length ≤ front.length) :
    scanFrom pattern.move 0 front.reverse back <:+ pattern.occurrences (front ++ back) := by
  by_cases hback : back = []
  · subst hback
    exact List.nil_suffix
  obtain ⟨passed, inner, rfl, hcomes, hmeets⟩ := hmarked.searches.exists_comesTo front hback
  cases hmeets with
  | here =>
      rw [List.append_nil] at hcomes ⊢
      obtain ⟨finds, hscan, -⟩ := hcomes.scan_eq
      exact ⟨finds, hscan.symm⟩
  | stops hstop => exact absurd hstop (move_ne_stop pattern _)
  | covers found hinner hmore htake hwrite =>
      have hinside := h _ (hcomes.mem_scan hmarked.searches htake)
      have hinner := List.length_pos_iff.mpr hinner
      have hmore := List.length_pos_iff.mpr hmore
      simp only [hwrite, List.length_append, List.length_reverse] at hinside
      omega

end Pattern

/-! ### Blocks -/

namespace Block

variable {header : Pattern} {form : Text → Text → Text → Prop} {mark : Char}
  {text front ahead : Text} {reading : Reading}

theorem searches (hreads : header.Reads form) : Searches (move header) Block.text where
  pass hmove := (move_eq_pass_iff.mp hmove).2
  take {text block length} hmove := by
    obtain ⟨rest, htext, hlength⟩ := text_eq_append hreads hmove
    refine ⟨?_, hlength, rest, htext⟩
    rw [Block.text]
    exact List.concat_ne_nil _ _

theorem move_eq_stop_iff : move header text = .stop ↔
    ∃ reading, header text = some reading ∧ interior? reading.rest = none := by
  rw [move]
  cases header text with
  | none => simp
  | some reading => cases hinterior : interior? reading.rest <;> simp [hinterior]

/-- **Headers.** Where a header begins, its block is found, or it begins inside of a block that is found,
or the search has come to a header whose block stays open. -/
theorem mem_sites_or (hreads : header.Reads form) (hmarked : header.Marked mark)
    (h : header ahead = some reading) (front : Text) :
    (∃ interior, ⟨front.reverse, ⟨reading, interior⟩⟩ ∈ sites header (front ++ ahead)) ∨
      (∃ site ∈ sites header (front ++ ahead), ∃ inner more rest,
        front = site.before.reverse ++ inner ∧ ahead = more ++ rest ∧ inner ≠ [] ∧ more ≠ [] ∧
        site.content.text = inner ++ more) ∨
      ∃ passed inner opened, front = passed ++ inner ∧ header (inner ++ ahead) = some opened ∧
        interior? opened.rest = none ∧ ∀ site ∈ sites header (front ++ ahead),
          site.content.text.reverse ++ site.before <:+ passed.reverse := by
  have hahead := hmarked.ne_nil h
  obtain ⟨passed, inner, rfl, hcomes, hmeets⟩ := (searches hreads).exists_comesTo front hahead
  have hstopped : move header (inner ++ ahead) = .stop → ∃ stopped rest opened,
      passed ++ inner = stopped ++ rest ∧ header (rest ++ ahead) = some opened ∧
        interior? opened.rest = none ∧ ∀ site ∈ sites header (passed ++ inner ++ ahead),
          site.content.text.reverse ++ site.before <:+ stopped.reverse := by
    intro hstop
    obtain ⟨opened, hopened, hopen⟩ := move_eq_stop_iff.mp hstop
    exact ⟨passed, inner, opened, rfl, hopened, hopen, fun site => hcomes.isSuffix_of_stop hstop⟩
  cases hmeets with
  | here =>
      cases hinterior : interior? reading.rest with
      | none => exact .inr (.inr (hstopped (move_eq_stop_iff.mpr ⟨reading, h, hinterior⟩)))
      | some cut =>
          have htake : move header ahead = .take ⟨reading, cut.1⟩ _ :=
            move_eq_take_iff.mpr ⟨h, ⟨cut.2, hinterior⟩, rfl⟩
          refine .inl ⟨cut.1, ?_⟩
          rw [List.append_nil]
          rw [List.append_nil] at hcomes
          exact hcomes.mem_scan (searches hreads) htake
  | stops hstop => exact .inr (.inr (hstopped hstop))
  | covers found hinner hmore htake hwrite =>
      exact .inr (.inl ⟨⟨passed.reverse, found⟩, hcomes.mem_scan (searches hreads) htake, _, _, _,
        by rw [List.reverse_reverse], rfl, hinner, hmore, hwrite⟩)

end Block

end Stylesheet
