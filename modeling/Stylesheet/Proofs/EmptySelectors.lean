import Stylesheet.Proofs.StepPlaces
import Stylesheet.Proofs.WellFormed

/-!
# Empty selectors

A style rule whose selector is nothing but white space is not read, and neither is such a rule of a
media block. A keyframe step is read as soon as one character of a selector stands before its brace,
and blanks count among these: behind blanks alone the selector of a step is empty.
-/

namespace Stylesheet

namespace Keyframes

variable {c : Char} {text source front run body rest : Text} {step : Rule}

/-- Of the characters of a selector only the ASCII blanks are white space. -/
theorem isBlank_of_isStepChar (hchar : isStepChar c = true) (hspace : isSpace c = true) :
    isBlank c = true := by
  simp only [isStepChar, Bool.or_eq_true, decide_eq_true_eq] at hchar
  rcases hchar with ((halphanum | rfl) | rfl) | hblank
  · rw [not_isSpace_of_isAlphanum halphanum] at hspace
    contradiction
  · exact absurd hspace (by decide)
  · exact absurd hspace (by decide)
  · exact hblank

theorem StepForm.selector_eq_nil_iff (h : StepForm text run body rest step) :
    step.selector = [] ↔ Blank run := by
  rw [h.step_eq, Text.trim_eq_nil_iff]
  constructor
  · exact fun hspace c hc => isBlank_of_isStepChar (h.run_chars c hc) (hspace c hc)
  · exact Text.space_of_blank

theorem StepIn.selector_eq_nil_iff (h : StepIn source front run body step) :
    step.selector = [] ↔ Blank run := by
  obtain ⟨_, _, _, hform⟩ := h.form
  exact hform.selector_eq_nil_iff

end Keyframes

theorem Record.WellFormedKind.of_mem {α : Type} {content : α → Prop}
    {records : Option (List (Record α))} {record : Record α}
    (h : WellFormedKind content records) (hrecord : record ∈ records.getD []) :
    record.WellFormed content := by
  cases records with
  | none => exact absurd hrecord List.not_mem_nil
  | some list => exact h.record list rfl record hrecord

/-- **Empty selectors.** In whatever document at whatever depth no style rule has an empty selector,
and no rule of a media block. Every keyframe step stands in the source, and its selector is empty
exactly if the characters before its brace are blanks, as far back as they can stand in a selector. -/
theorem Config.selectors_of_holds (config : Config) (source : Text) {depth : Nat}
    {inner : Document} (h : (config.parse source).Holds depth inner) :
    (∀ record ∈ inner.sheet.styles.getD [], record.content.selector ≠ []) ∧
      (∀ record ∈ inner.sheet.media.getD [], ∀ rule, .style rule ∈ record.content.rules →
        rule.selector ≠ []) ∧
      ∀ record ∈ inner.sheet.keyframes.getD [], ∃ lead block,
        Document.Origin config.maxNesting source depth inner record lead block ∧
        List.Forall₂ (fun site step => ∃ run body,
            Keyframes.StepIn source (lead ++ site.before.reverse) run body step ∧
            (step.selector = [] ↔ Blank run))
          (Keyframes.stepSites block) record.content.steps := by
  have hwell : inner.sheet.WellFormed := by
    obtain ⟨text, -, rfl⟩ := h.exists_text
    exact Document.wellFormed_parseAt config.maxNesting depth text
  refine ⟨fun record hrecord => ?_, fun record hrecord rule hrule => ?_, fun record hrecord => ?_⟩
  · exact (hwell.styles.of_mem hrecord).content.selector_ne_nil
  · exact ((hwell.media.of_mem hrecord).content.rules rule hrule).1.selector_ne_nil
  · obtain ⟨lead, block, horigin⟩ := h.exists_origin hrecord
    exact ⟨lead, block, horigin, horigin.forall₂_stepIn.imp fun site step ⟨run, body, hstep⟩ =>
      ⟨run, body, hstep, hstep.selector_eq_nil_iff⟩⟩

/-- A rule, a media block, and a keyframes block up to the end of its first step. -/
def gappedFront : Text :=
  ".a\x7b\x7d@media b\x7bc\x7b\x7d\x7d@keyframes k\x7bx\x7b\x7d".toList

/-- The second step stands behind nothing but a blank. -/
def gapped : Text :=
  gappedFront ++ " \x7bd:e;\x7d\x7d".toList

def gappedStep : Rule :=
  ⟨[], [⟨"d".toList, "e".toList⟩]⟩

theorem parse_gapped : ({} : Config).parse gapped =
    ⟨{ keyframes := some [⟨none, 1, ⟨"k".toList, [⟨"x".toList, []⟩, gappedStep]⟩⟩]
       media := some [.ofMedia "b".toList [.style ⟨"c".toList, []⟩]]
       styles := some [⟨none, 1, ⟨".a".toList, []⟩⟩] }⟩ :=
  rfl

theorem Config.selectors_of_holds_gapped :
    (({} : Config).parse gapped).Holds 0 (({} : Config).parse gapped) ∧
      (∀ record ∈ (({} : Config).parse gapped).sheet.styles.getD [],
        record.content.selector ≠ []) ∧
      Keyframes.StepIn gapped gappedFront [' '] "d:e;".toList gappedStep ∧
      Blank [' '] := by
  obtain ⟨hstyles, -, hkeyframes⟩ := selectors_of_holds {} gapped .whole
  refine ⟨.whole, hstyles, ?_⟩
  rw [parse_gapped] at hkeyframes
  obtain ⟨lead, block, horigin, hsteps⟩ := hkeyframes _ List.mem_cons_self
  obtain ⟨rfl, hblock⟩ := horigin.whole
  have hsites : ∀ block ∈ Block.sites Keyframes.header gapped, Keyframes.stepSites block =
      [⟨".a\x7b\x7d@media b\x7bc\x7b\x7d\x7d@keyframes k\x7b".toList.reverse, ⟨"x".toList, []⟩⟩,
        ⟨gappedFront.reverse, gappedStep⟩] := by
    decide
  rw [hsites block hblock] at hsteps
  obtain ⟨-, hbehind⟩ := List.forall₂_cons.mp hsteps
  obtain ⟨⟨run, body, hstep, hiff⟩, -⟩ := List.forall₂_cons.mp hbehind
  rw [List.nil_append, List.reverse_reverse] at hstep
  have hform : Keyframes.StepForm " \x7bd:e;\x7d\x7d".toList [' '] "d:e;".toList ['}']
      gappedStep :=
    ⟨rfl, by decide, List.all_eq_true.mp rfl, by decide, rfl⟩
  have hlast : ∀ c ∈ gappedFront.getLast?, Keyframes.isStepChar c = false := by
    rintro c ⟨⟩
    decide
  have hplace : Keyframes.StepIn gapped gappedFront [' '] "d:e;".toList gappedStep :=
    ⟨⟨_, _, rfl, hform⟩, hlast⟩
  obtain ⟨rfl, rfl⟩ := hstep.unique hplace
  exact ⟨hstep, hiff.mp rfl⟩

/-- A block with one step, behind a blank. -/
def selectorless : Text :=
  "@keyframes k\x7b \x7ba:b;\x7d\x7d".toList

def selectorlessStep : Rule :=
  ⟨[], [⟨"a".toList, "b".toList⟩]⟩

/-- The step is read. -/
theorem Config.parse_selectorless_ne :
    ({} : Config).parse selectorless =
        ⟨{ keyframes := some [⟨none, 1, ⟨"k".toList, [selectorlessStep]⟩⟩] }⟩ ∧
      ¬∀ record ∈ (({} : Config).parse selectorless).sheet.keyframes.getD [],
        ∀ step ∈ record.content.steps, step.selector ≠ [] := by
  refine ⟨rfl, ?_⟩
  decide

end Stylesheet
