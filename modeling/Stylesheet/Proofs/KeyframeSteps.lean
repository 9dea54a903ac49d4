import Mathlib.Data.List.DropRight
import Stylesheet.Proofs.RuleReading

/-!
# Steps as they are written

The scan looks for a step at every place, and a point, which parts the fraction of a percentage from
its whole part, is no character of a selector. So a written selector is read from behind the last
point in it, and as a whole exactly if there is none.
-/

namespace Stylesheet.Keyframes

/-! ### The written steps -/

/-- A number as it is written, in decimal digits. -/
structure Digits where
  text : Text
  ne_nil : text ≠ []
  digits : text.all Char.isDigit

/-- A moment of an animation. -/
inductive Moment where
  | start
  | finish
  | percentage (whole : Digits) (fraction : Option Digits)

def Moment.text : Moment → Text
  | start => "from".toList
  | finish => "to".toList
  | percentage whole none => whole.text ++ ['%']
  | percentage whole (some fraction) => whole.text ++ '.' :: (fraction.text ++ ['%'])

/-- A comma with the blanks around it. -/
structure Comma where
  before : Text
  behind : Text
  blank_before : Blank before
  blank_behind : Blank behind

def Comma.text (comma : Comma) : Text :=
  comma.before ++ ',' :: comma.behind

/-- The moments for which a step is written. -/
structure Moments where
  first : Moment
  others : List (Comma × Moment)

def Moments.text (moments : Moments) : Text :=
  moments.first.text ++ moments.others.flatMap fun (comma, moment) => comma.text ++ moment.text

/-- A step with the blanks before it. -/
structure WrittenStep where
  lead : Text
  selector : Moments
  gap : Text
  interior : Text
  blank_lead : Blank lead
  blank_gap : Blank gap
  closing : '}' ∉ interior

namespace WrittenStep

def text (step : WrittenStep) : Text :=
  step.lead ++ step.selector.text ++ step.gap ++ ('{' :: step.interior ++ ['}'])

/-- What is read of a step: the part of its selector behind the last point, and its declarations. -/
def rule (step : WrittenStep) : Rule :=
  ⟨step.selector.text.rtakeWhile (· ≠ '.'), Declaration.matching step.interior.trim⟩

end WrittenStep

/-! ### Texts that are read as selectors -/

/-- A text that is read as the selector that it is. -/
def Legible (text : Text) : Prop :=
  (∀ c ∈ text, isStepChar c = true) ∧
    ∃ first middle last, text = first :: (middle ++ [last]) ∧ isSpace first = false ∧
      isSpace last = false

namespace Legible

variable {text other joint : Text}

theorem trimmed (h : Legible text) : Text.Trimmed text := by
  obtain ⟨-, first, middle, last, rfl, hfirst, hlast⟩ := h
  rw [Text.Trimmed, Text.trim_cons hfirst, Text.trimEnd_append_cons hlast]
  rfl

theorem ne_nil (h : Legible text) : text ≠ [] := by
  obtain ⟨-, first, middle, last, rfl, -⟩ := h
  exact List.cons_ne_nil _ _

theorem not_mem {c : Char} (h : Legible text) (hc : isStepChar c = false) : c ∉ text :=
  Text.not_mem_of_forall h.1 hc

theorem append (h : Legible text) (hjoint : ∀ c ∈ joint, isStepChar c = true)
    (hother : Legible other) : Legible (text ++ joint ++ other) := by
  obtain ⟨htext, first, middle, last, rfl, hfirst, -⟩ := h
  obtain ⟨hchars, begun, within, ended, rfl, -, hended⟩ := hother
  refine ⟨?_, first, middle ++ [last] ++ joint ++ begun :: within, ended, by simp, hfirst, hended⟩
  exact List.forall_mem_append.mpr ⟨List.forall_mem_append.mpr ⟨htext, hjoint⟩, hchars⟩

end Legible

theorem isAlphanum_of_isDigit {c : Char} (h : c.isDigit = true) : c.isAlphanum = true := by
  rw [Char.isAlphanum, h, Bool.or_true]

theorem isStepChar_of_isDigit {c : Char} (h : c.isDigit = true) : isStepChar c = true := by
  simp only [isStepChar, isAlphanum_of_isDigit h, Bool.true_or]

theorem Digits.legible (number : Digits) : Legible (number.text ++ ['%']) := by
  obtain ⟨text, hne, hall⟩ := number
  obtain ⟨first, middle, rfl⟩ := List.exists_cons_of_ne_nil hne
  have hdigits : ∀ c ∈ first :: middle, c.isDigit = true := List.all_eq_true.mp hall
  refine ⟨List.forall_mem_append.mpr ⟨?_, List.forall_mem_singleton.mpr (by decide)⟩, first,
    middle, '%', rfl, ?_, by decide⟩
  · exact fun c hc => isStepChar_of_isDigit (hdigits c hc)
  · exact not_isSpace_of_isAlphanum (isAlphanum_of_isDigit (hdigits first List.mem_cons_self))

theorem Comma.forall_isStepChar (comma : Comma) : ∀ c ∈ comma.text, isStepChar c = true := by
  refine List.forall_mem_append.mpr ⟨fun c hc => ?_, List.forall_mem_cons.mpr ⟨by decide, ?_⟩⟩
  · exact isStepChar_of_isBlank (comma.blank_before c hc)
  · exact fun c hc => isStepChar_of_isBlank (comma.blank_behind c hc)

/-! ### Texts that are passed over -/

/-- No step is found up to a point that no brace stands before. -/
theorem passes_point {passed : Text} (hpassed : '{' ∉ passed) :
    Passes stepMove (passed ++ ['.']) := by
  refine fun before rest => scanFrom_pass_each fun done ahead hsplit hne => ?_
  obtain ⟨ahead, last, rfl⟩ := (List.eq_nil_or_concat' ahead).resolve_left hne
  obtain ⟨rfl, hlast⟩ := List.append_inj' (hsplit.trans (List.append_assoc _ _ _).symm) rfl
  obtain rfl : '.' = last := List.singleton_inj.mp hlast
  have hstop : isStepChar '.' = false := by decide
  -- A run that begins before the point ends there at the latest, so that no brace is behind it.
  rw [stepMove]
  split
  · rfl
  · next found behind hstep =>
      obtain ⟨opened, hopened⟩ := dropWhile_of_step? hstep
      rw [List.append_assoc, List.singleton_append, Text.dropWhile_append_mark hstop] at hopened
      rcases Text.mem_or_eq_of_head?_append_cons (congrArg List.head? hopened) with hmem | heq
      · have hahead : '{' ∈ ahead := (List.dropWhile_suffix _).subset hmem
        exact absurd (List.mem_append_right done hahead) hpassed
      · exact absurd heq (by decide)

/-- A text with a point at its end or none at all. -/
def Pointed (front : Text) : Prop :=
  front = [] ∨ ∃ passed, front = passed ++ ['.'] ∧ '{' ∉ passed

namespace Pointed

variable {front back lead : Text}

theorem not_mem (h : Pointed front) : '{' ∉ front := by
  rcases h with rfl | ⟨passed, rfl, hpassed⟩
  · exact List.not_mem_nil
  · simpa using hpassed

/-- Of the blanks before a selector only those before the part that is read are not passed over. -/
theorem exists_passes (h : Pointed front) (hlead : Blank lead) :
    ∃ skipped blanks, lead ++ front = skipped ++ blanks ∧ Passes stepMove skipped ∧ Blank blanks := by
  rcases h with rfl | ⟨passed, rfl, hpassed⟩
  · exact ⟨[], lead, List.append_nil lead, .nil stepMove, hlead⟩
  · have hopening : '{' ∉ lead ++ passed := by
      rw [List.mem_append, not_or]
      exact ⟨Text.not_mem_of_forall hlead rfl, hpassed⟩
    refine ⟨lead ++ passed ++ ['.'], [], by simp, passes_point hopening, List.forall_mem_nil _⟩

theorem rtakeWhile_append (h : Pointed front) (hback : '.' ∉ back) :
    (front ++ back).rtakeWhile (· ≠ '.') = back := by
  have hmarks : ∀ c ∈ back, decide (c ≠ '.') = true := fun c hc =>
    decide_eq_true fun heq => hback (heq ▸ hc)
  rcases h with rfl | ⟨passed, rfl, -⟩
  · exact List.rtakeWhile_eq_self_iff.mpr hmarks
  · have hreverse : (passed ++ ['.'] ++ back).reverse = back.reverse ++ '.' :: passed.reverse := by
      simp
    rw [List.rtakeWhile, hreverse, Text.takeWhile_append_cons
      (fun c hc => hmarks c (List.mem_reverse.mp hc)) (decide_eq_false (by simp)),
      List.reverse_reverse]

end Pointed

/-- A text of which the part behind its last point is read. -/
def Readable (text : Text) : Prop :=
  ∃ front back, text = front ++ back ∧ Pointed front ∧ Legible back

namespace Readable

variable {text other joint : Text}

theorem of_legible (h : Legible text) : Readable text :=
  ⟨[], text, rfl, .inl rfl, h⟩

theorem not_mem (h : Readable text) : '{' ∉ text := by
  obtain ⟨front, back, rfl, hfront, hback⟩ := h
  rw [List.mem_append, not_or]
  exact ⟨hfront.not_mem, hback.not_mem (by decide)⟩

theorem append (h : Readable text) (hjoint : ∀ c ∈ joint, isStepChar c = true)
    (hother : Readable other) : Readable (text ++ joint ++ other) := by
  have htext : '{' ∉ text := h.not_mem
  have hopening : '{' ∉ joint := Text.not_mem_of_forall hjoint (by decide)
  obtain ⟨front, back, rfl, hfront, hback⟩ := h
  obtain ⟨_, rest, rfl, rfl | ⟨passed, rfl, hpassed⟩, hrest⟩ := hother
  · exact ⟨front, back ++ joint ++ rest, by simp, hfront, hback.append hjoint hrest⟩
  · refine ⟨front ++ back ++ joint ++ passed ++ ['.'], rest, by simp, .inr ⟨_, rfl, ?_⟩, hrest⟩
    simp only [List.mem_append, not_or] at htext ⊢
    exact ⟨⟨htext, hopening⟩, hpassed⟩

end Readable

theorem Moment.readable (moment : Moment) : Readable moment.text := by
  match moment with
  | start => exact .of_legible ⟨List.all_eq_true.mp rfl, 'f', "ro".toList, 'm', rfl, by decide, by decide⟩
  | finish => exact .of_legible ⟨List.all_eq_true.mp rfl, 't', [], 'o', rfl, by decide, by decide⟩
  | percentage whole none => exact .of_legible whole.legible
  | percentage whole (some fraction) =>
      have hopening : '{' ∉ whole.text := Text.not_mem_of_all whole.digits (by decide)
      refine ⟨whole.text ++ ['.'], fraction.text ++ ['%'], ?_, .inr ⟨_, rfl, hopening⟩,
        fraction.legible⟩
      simp [Moment.text]

theorem Moments.readable (moments : Moments) : Readable moments.text := by
  obtain ⟨first, others⟩ := moments
  -- What is written so far takes one comma and one moment after the other.
  suffices h : ∀ text, Readable text →
      Readable (text ++ others.flatMap fun (comma, moment) => comma.text ++ moment.text) from
    h first.text first.readable
  induction others with
  | nil =>
      intro text htext
      rwa [List.flatMap_nil, List.append_nil]
  | cons item others ih =>
      intro text htext
      obtain ⟨comma, moment⟩ := item
      rw [List.flatMap_cons, ← List.append_assoc, ← List.append_assoc]
      exact ih _ (htext.append comma.forall_isStepChar moment.readable)

/-! ### What is read -/

theorem scanContents_writtenStep (step : WrittenStep) (rest : Text) :
    scanContents stepMove (step.text ++ rest) = step.rule :: scanContents stepMove rest := by
  obtain ⟨front, back, hselector, hfront, hback⟩ := step.selector.readable
  obtain ⟨skipped, blanks, hskipped, hpasses, hblanks⟩ := hfront.exists_passes step.blank_lead
  -- The step that is found begins with the blanks, or behind the last point if there is one.
  have hrule : step.rule =
      ⟨Text.trim (blanks ++ back ++ step.gap), Declaration.matching step.interior.trim⟩ := by
    rw [WrittenStep.rule, hselector, hfront.rtakeWhile_append (hback.not_mem (by decide)),
      hback.trimmed.trim_pad hblanks step.blank_gap]
  have hrun : ∀ c ∈ blanks ++ back ++ step.gap, isStepChar c = true := by
    simp only [List.forall_mem_append]
    exact ⟨⟨fun c hc => isStepChar_of_isBlank (hblanks c hc), hback.1⟩,
      fun c hc => isStepChar_of_isBlank (step.blank_gap c hc)⟩
  have hne : blanks ++ back ++ step.gap ≠ [] := by simp [hback.ne_nil]
  have htext : step.text ++ rest =
      skipped ++ (blanks ++ back ++ step.gap ++ ('{' :: step.interior ++ ['}']) ++ rest) := by
    rw [WrittenStep.text, hselector, ← List.append_assoc step.lead, hskipped]
    simp
  rw [htext, hpasses.scanContents_append, hrule,
    scanContents_take (by simp) (stepMove_run hrun hne step.closing rest)]

/-- **Steps as they are written.** One step is read for each written one, in order, with what stands
behind the last point of its selector. That is the written selector exactly if no point is in it. -/
theorem stepsOf_written (steps : List WrittenStep) {trail : Text} (htrail : Blank trail) :
    stepsOf (steps.flatMap WrittenStep.text ++ trail) = steps.map WrittenStep.rule ∧
      ∀ step ∈ steps, (step.rule.selector = step.selector.text ↔ '.' ∉ step.selector.text) := by
  constructor
  · induction steps with
    | nil => exact scanContents_blanks htrail
    | cons step steps ih =>
        rw [List.flatMap_cons, List.append_assoc, stepsOf, scanContents_writtenStep, List.map_cons]
        exact congrArg (step.rule :: ·) ih
  · intro step _
    have hwhole : step.rule.selector = step.selector.text ↔
        ∀ c ∈ step.selector.text, decide (c ≠ '.') = true := List.rtakeWhile_eq_self_iff
    rw [hwhole]
    simp only [decide_eq_true_eq, ne_eq]
    exact List.forall_mem_ne'

/-- Two steps, the first of them for two moments. -/
def pulse : List WrittenStep :=
  [{ lead := "\n  ".toList
     selector :=
      ⟨.start, [(⟨[], [' '], List.forall_mem_nil _, blank_space⟩,
        .percentage ⟨"100".toList, by decide, by decide⟩ none)]⟩
     gap := [' ']
     interior := "opacity: 1;".toList
     blank_lead := blank_of_all rfl
     blank_gap := blank_space
     closing := by decide },
   { lead := "\n  ".toList
     selector := ⟨.percentage ⟨"50".toList, by decide, by decide⟩ none, []⟩
     gap := [' ']
     interior := "opacity: .5;".toList
     blank_lead := blank_of_all rfl
     blank_gap := blank_space
     closing := by decide }]

theorem stepsOf_written_pulse :
    Blank ['\n'] ∧
      stepsOf "\n  from, 100% \x7bopacity: 1;\x7d\n  50% \x7bopacity: .5;\x7d\n".toList =
        [⟨"from, 100%".toList, [⟨"opacity".toList, "1".toList⟩]⟩,
          ⟨"50%".toList, [⟨"opacity".toList, ".5".toList⟩]⟩] ∧
      ∀ step ∈ pulse, step.rule.selector = step.selector.text := by
  obtain ⟨hsteps, hwhole⟩ := stepsOf_written pulse blank_feed
  have hpoints : ∀ step ∈ pulse, '.' ∉ step.selector.text := by decide
  exact ⟨blank_feed, hsteps, fun step hmem => (hwhole step hmem).mpr (hpoints step hmem)⟩

/-- A step for a percentage with a fraction. -/
def fractional : WrittenStep where
  lead := []
  selector :=
    ⟨.percentage ⟨"12".toList, by decide, by decide⟩ (some ⟨"5".toList, by decide, by decide⟩), []⟩
  gap := []
  interior := "a:b;".toList
  blank_lead := List.forall_mem_nil _
  blank_gap := List.forall_mem_nil _
  closing := by decide

/-- The step is read as one for its fraction. -/
theorem stepsOf_fractional_ne :
    fractional.text = "12.5%\x7ba:b;\x7d".toList ∧ fractional.selector.text = "12.5%".toList ∧
      stepsOf fractional.text = [⟨"5%".toList, [⟨"a".toList, "b".toList⟩]⟩] ∧
      (stepsOf fractional.text).map Rule.selector ≠ [fractional.selector.text] := by
  decide

end Stylesheet.Keyframes
