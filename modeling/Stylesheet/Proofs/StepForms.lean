import Mathlib.Data.Option.Basic
import Stylesheet.Keyframes
import Stylesheet.Proofs.Walks

/-!
# Forms of keyframe steps

A step is a run of characters of a selector, a brace, and a body up to the first closing brace. The
scan takes a step from its first character on, so none of these characters stands before the run: the
brace alone decides what the selector is.
-/

namespace Stylesheet.Keyframes

/-- A step at the front of a text, and the text behind it. -/
structure StepForm (text run body rest : Text) (step : Rule) : Prop where
  text_eq : text = run ++ '{' :: (body ++ '}' :: rest)
  run_ne_nil : run ≠ []
  run_chars : ∀ c ∈ run, isStepChar c = true
  closing : '}' ∉ body
  step_eq : step = ⟨run.trim, Declaration.matching body.trim⟩

variable {c : Char} {text before interior run body rest : Text} {step : Rule} {length : Nat}

theorem step?_eq_some_iff :
    step? text = some (step, rest) ↔ ∃ run body, StepForm text run body rest step := by
  constructor
  · intro h
    simp only [step?, Option.bind_eq_bind, Option.bind_eq_some_iff, Option.guard_eq_some',
      Text.after?_eq_some_iff, Text.cut?_eq_some_iff, Option.some.injEq, Prod.exists, Prod.mk.injEq,
      Bool.not_eq_true', List.isEmpty_eq_false_iff, exists_const] at h
    obtain ⟨hne, opened, hopened, body, rest, ⟨rfl, hclosing⟩, rfl, rfl⟩ := h
    exact ⟨text.takeWhile isStepChar, body, {
      text_eq := Text.eq_takeWhile_append hopened
      run_ne_nil := hne
      run_chars := fun c hc => List.mem_takeWhile_imp hc
      closing := hclosing
      step_eq := rfl }⟩
  · rintro ⟨run, body, ⟨rfl, hne, hrun, hclosing, rfl⟩⟩
    have hbrace : isStepChar '{' = false := by decide
    have hempty : run.isEmpty = false := List.isEmpty_eq_false_iff.mpr hne
    rw [step?, Text.takeWhile_append_cons hrun hbrace, Text.dropWhile_append_cons hrun hbrace, hempty]
    simp only [Text.after?, if_true, Option.bind_eq_bind, Option.bind_some,
      Text.cut?_append_cons hclosing]
    rfl

/-- A step is determined by where it begins. -/
theorem StepForm.unique {run' body' rest' : Text} {step' : Rule}
    (h : StepForm text run body rest step) (h' : StepForm text run' body' rest' step') :
    run = run' ∧ body = body' := by
  have htakeWhile : ∀ {run body rest step}, StepForm text run body rest step →
      text.takeWhile isStepChar = run := by
    intro run body rest step h
    rw [h.text_eq, Text.takeWhile_append_cons h.run_chars (by decide)]
  obtain rfl : run = run' := (htakeWhile h).symm.trans (htakeWhile h')
  have hopened := List.append_cancel_left (h.text_eq.symm.trans h'.text_eq)
  have hcut := congrArg (Text.cut? '}') (List.cons.inj hopened).2
  rw [Text.cut?_append_cons h.closing, Text.cut?_append_cons h'.closing] at hcut
  exact ⟨rfl, congrArg Prod.fst (Option.some.inj hcut)⟩

theorem StepForm.append (h : StepForm text run body rest step) (more : Text) :
    StepForm (text ++ more) run body (rest ++ more) step where
  text_eq := by
    rw [h.text_eq]
    simp
  run_ne_nil := h.run_ne_nil
  run_chars := h.run_chars
  closing := h.closing
  step_eq := h.step_eq

/-- The text of a step. -/
def stepText (run body : Text) : Text :=
  run ++ ('{' :: body ++ ['}'])

theorem stepText_append (run body rest : Text) :
    stepText run body ++ rest = run ++ '{' :: (body ++ '}' :: rest) := by
  simp [stepText]

theorem stepMove_eq_take_iff : stepMove text = .take step length ↔
    ∃ run body rest, StepForm text run body rest step ∧ length = (stepText run body).length := by
  have hlength : ∀ {run body rest step}, StepForm text run body rest step →
      text.length - rest.length = (stepText run body).length := by
    intro run body rest step h
    rw [h.text_eq, ← stepText_append, List.length_append, Nat.add_sub_cancel]
  rw [stepMove]
  constructor
  · intro h
    split at h
    · contradiction
    · next found rest hstep =>
        obtain ⟨rfl, rfl⟩ := Move.take.inj h
        obtain ⟨run, body, hform⟩ := step?_eq_some_iff.mp hstep
        exact ⟨run, body, rest, hform, hlength hform⟩
  · rintro ⟨run, body, rest, hform, rfl⟩
    simp only [step?_eq_some_iff.mpr ⟨run, body, hform⟩, hlength hform]

theorem stepMove_eq_pass_iff : stepMove text = .pass length ↔ step? text = none ∧ length = 1 := by
  rw [stepMove]
  cases step? text with
  | none => simp [eq_comm]
  | some found => simp

theorem stepMove_ne_stop (text : Text) : stepMove text ≠ .stop := by
  rw [stepMove]
  split <;> exact fun h => nomatch h

/-! ### What stands before a step -/

theorem strides_stepMove : Strides stepMove := by
  intro text htext
  right
  cases hmove : stepMove text with
  | stop => exact absurd hmove (stepMove_ne_stop text)
  | pass length =>
      obtain ⟨-, rfl⟩ := stepMove_eq_pass_iff.mp hmove
      obtain ⟨c, text, rfl⟩ := List.exists_cons_of_ne_nil htext
      exact ⟨[c], text, List.cons_ne_nil c [], rfl, .inl rfl⟩
  | take step length =>
      obtain ⟨run, body, rest, hform, rfl⟩ := stepMove_eq_take_iff.mp hmove
      refine ⟨stepText run body, rest, by simp [stepText], ?_, .inr ⟨step, rfl⟩⟩
      rw [hform.text_eq, stepText_append]

/-- A step may begin one character of a selector earlier. -/
theorem StepForm.cons (h : StepForm text run body rest step) (hc : isStepChar c = true) :
    StepForm (c :: text) (c :: run) body rest
      ⟨Text.trim (c :: run), Declaration.matching body.trim⟩ where
  text_eq := congrArg (c :: ·) h.text_eq
  run_ne_nil := List.cons_ne_nil c run
  run_chars := List.forall_mem_cons.mpr ⟨hc, h.run_chars⟩
  closing := h.closing
  step_eq := rfl

/-- Behind a character of a selector no step begins, since it would have begun before. -/
def Fresh (before ahead : Text) : Prop :=
  (∃ c ∈ before.head?, isStepChar c = true) → step? ahead = none

/-- One move. -/
theorem fresh_of_covers {piece : Text} (hpiece : piece ≠ [])
    (hcovers : (stepMove (piece ++ rest)).Covers piece) (before : Text) :
    Fresh (piece.reverse ++ before) rest := by
  rintro ⟨c, hc, hchar⟩
  rcases hcovers with hpass | ⟨found, htake⟩
  · -- The place behind one character that was passed over.
    obtain ⟨hnone, hlength⟩ := stepMove_eq_pass_iff.mp hpass
    obtain ⟨d, rfl⟩ := List.length_eq_one_iff.mp hlength
    obtain rfl : d = c := Option.some.inj hc
    rw [Option.eq_none_iff_forall_not_mem]
    rintro ⟨step, more⟩ hstep
    obtain ⟨run, body, hform⟩ := step?_eq_some_iff.mp hstep
    have hearlier := step?_eq_some_iff.mpr ⟨_, _, hform.cons hchar⟩
    rw [List.singleton_append, hearlier] at hnone
    contradiction
  · -- The place behind a step, which ends in a brace.
    obtain ⟨run, body, more, hform, hlength⟩ := stepMove_eq_take_iff.mp htake
    have htext := hform.text_eq
    rw [← stepText_append] at htext
    obtain ⟨rfl, -⟩ := List.append_inj htext hlength
    have hbrace : (stepText run body).reverse ++ before =
        '}' :: ((run ++ '{' :: body).reverse ++ before) := by
      simp [stepText]
    rw [hbrace] at hc
    obtain rfl := Option.some.inj hc
    exact absurd hchar (by decide)

/-- A whole scan: where a step is found no character of a selector stands before it. -/
theorem exists_form_of_mem_scanFrom {site : Site Rule}
    (hbefore : ∀ c ∈ before.head?, isStepChar c = false)
    (h : site ∈ scanFrom stepMove 0 before interior) :
    ∃ ahead run body rest, before.reverse ++ interior = site.before.reverse ++ ahead ∧
      StepForm ahead run body rest site.content ∧ ∀ c ∈ site.before.head?, isStepChar c = false := by
  have hfresh : Fresh before interior := by
    rintro ⟨c, hc, hchar⟩
    exact absurd hchar (by simp [hbefore c hc])
  obtain ⟨passed, ahead, length, rfl, hsite, hmove⟩ := mem_scanFrom h
  have hinvariant := strides_stepMove.invariant
    (P := fun before' ahead' => before'.reverse ++ ahead' = before.reverse ++ (passed ++ ahead) ∧
      Fresh before' ahead')
    (fun ⟨htext, _⟩ hpiece hcovers => ⟨by simpa using htext, fresh_of_covers hpiece hcovers _⟩)
    ⟨rfl, hfresh⟩ site h
  obtain ⟨ahead', htext, hfreshSite⟩ := hinvariant
  obtain rfl : ahead' = ahead := by simpa [hsite] using htext
  obtain ⟨run, body, rest, hform, -⟩ := stepMove_eq_take_iff.mp hmove
  refine ⟨ahead', run, body, rest, htext.symm, hform, fun c hc => ?_⟩
  rw [Bool.eq_false_iff]
  intro hchar
  have hstep := step?_eq_some_iff.mpr ⟨run, body, hform⟩
  rw [hfreshSite ⟨c, hc, hchar⟩] at hstep
  contradiction

end Stylesheet.Keyframes
