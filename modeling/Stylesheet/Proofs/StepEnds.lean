import Stylesheet.Proofs.ClosingBraces
import Stylesheet.Proofs.StepPlaces

/-!
# Ends of keyframe steps

A keyframes block ends with the brace that balances its own, but a step in it ends with the first
closing brace, be it in a comment. That brace balances the brace of the step exactly if the body of
the step has no opening brace outside of its comments and all of its comments end. In every other body
the balancing brace lies further on, or there is none, and the step is cut short.
-/

namespace Stylesheet

/-! ### The first closing brace -/

/-- A text without opening braces outside of its comments, all of which end. -/
def Level (text : Text) : Prop :=
  ∃ shown, Shows text shown [] ∧ '{' ∉ shown

variable {text shown rest body inner more front : Text} {close : Nat}

theorem Shows.sublist (h : Shows text shown rest) : List.Sublist shown text := by
  induction h with
  | here text => exact List.nil_sublist text
  | @comment body text shown rest _ _ ih =>
      have hsuffix : text <:+ '/' :: '*' :: (body ++ '*' :: '/' :: text) :=
        ⟨'/' :: '*' :: (body ++ ['*', '/']), by simp⟩
      exact ih.trans hsuffix.sublist
  | @char c text shown rest _ _ ih => exact ih.cons_cons c

/-- A closing brace behind a text opens no comment and ends none. -/
theorem Shows.append_closing (h : Shows text shown []) (rest : Text) :
    Shows (text ++ '}' :: rest) shown ('}' :: rest) := by
  generalize hnil : ([] : Text) = behind at h
  induction h with
  | here text =>
      subst hnil
      exact .here _
  | @comment body text shown _ hcloser _ ih =>
      have htext : '/' :: '*' :: (body ++ '*' :: '/' :: text) ++ '}' :: rest =
          '/' :: '*' :: (body ++ '*' :: '/' :: (text ++ '}' :: rest)) := by simp
      rw [htext]
      exact .comment hcloser (ih hnil)
  | @char c text shown _ hopener _ ih =>
      refine .char (fun hstarts => ?_) (ih hnil)
      obtain ⟨rfl, hnext⟩ := List.cons_prefix_cons.mp hstarts
      cases text with
      | nil => exact absurd (List.cons_prefix_cons.mp hnext).1 (by decide)
      | cons d text =>
          obtain ⟨rfl, -⟩ := List.cons_prefix_cons.mp hnext
          exact hopener (List.prefix_append ['/', '*'] text)

/-- What is shown up to a place of a text is shown by the text before the place. -/
theorem Shows.cut (h : Shows (body ++ rest) shown rest) : Shows body shown [] := by
  generalize htext : body ++ rest = text at h
  induction h generalizing body with
  | here text =>
      obtain rfl : body = [] := List.append_left_eq_self.mp htext
      exact .here []
  | @comment inside text shown rest hcloser hlater ih =>
      obtain ⟨piece, rfl⟩ := hlater.isSuffix
      have hbody : body ++ rest = '/' :: '*' :: (inside ++ '*' :: '/' :: piece) ++ rest := by
        rw [htext]
        simp
      obtain rfl := List.append_cancel_right hbody
      exact .comment hcloser (ih rfl)
  | @char c text shown rest hopener hlater ih =>
      obtain ⟨piece, rfl⟩ := hlater.isSuffix
      have hbody : body ++ rest = c :: piece ++ rest := htext
      obtain rfl := List.append_cancel_right hbody
      exact .char (fun hstarts => hopener (hstarts.trans (List.prefix_append _ _))) (ih rfl)

/-- Of two cuts of a text at closing braces the first one is that behind a text without them. -/
theorem isPrefix_of_not_mem (hclosing : '}' ∉ body)
    (h : body ++ '}' :: rest = inner ++ '}' :: more) : body <+: inner := by
  rcases List.append_eq_append_iff.mp h with ⟨middle, rfl, -⟩ | ⟨middle, rfl, hmiddle⟩
  · exact List.prefix_append body middle
  · cases middle with
    | nil => simp
    | cons c middle =>
        obtain ⟨rfl, -⟩ := List.cons.inj hmiddle
        exact absurd (List.mem_append_right inner List.mem_cons_self) hclosing

theorem level_iff_enclosed (hclosing : '}' ∉ body) : Level body ↔ Enclosed body := by
  have hcount : ∀ shown, Shows body shown [] → shown.count '}' = 0 := fun shown hshows =>
    List.count_eq_zero.mpr fun hmem => hclosing (hshows.sublist.subset hmem)
  constructor
  · rintro ⟨shown, hshows, hopening⟩
    have heven : (1 : Int) + shown.count '{' = shown.count '}' + 1 := by
      rw [hcount shown hshows, List.count_eq_zero.mpr hopening]
      rfl
    obtain ⟨inner, after, hbalance, -⟩ :=
      exists_balance_of_shows (hshows.append_closing []) rfl heven
    -- The brace that is found is the only one.
    have hsplit := (balance_local hbalance).1
    obtain ⟨middle, rfl⟩ := isPrefix_of_not_mem hclosing hsplit
    have hmiddle : middle = [] ∧ after = [] := by
      have hlength := congrArg List.length hsplit
      simp only [List.length_append, List.length_cons, List.length_nil] at hlength
      exact ⟨List.length_eq_zero_iff.mp (by omega), List.length_eq_zero_iff.mp (by omega)⟩
    obtain ⟨rfl, rfl⟩ := hmiddle
    rw [List.append_nil] at hbalance
    exact hbalance
  · intro h
    obtain ⟨_, shown, rfl, hshows, heven⟩ := shows_of_balance h
    have hbody : Shows body shown [] := hshows.cut
    rw [hcount shown hbody] at heven
    exact ⟨shown, hbody, List.count_eq_zero.mp (by omega)⟩

section Block

variable (hclosing : '}' ∉ body)

include hclosing

theorem le_of_closingBrace? (h : closingBrace? (front ++ '{' :: (body ++ '}' :: rest)) front.byteSize =
    some close) : front.byteSize + Text.byteSize ('{' :: body) ≤ close := by
  rw [closingBrace?_brace] at h
  obtain ⟨⟨inner, more⟩, hinner, rfl⟩ := Option.map_eq_some_iff.mp h
  obtain ⟨middle, rfl⟩ := isPrefix_of_not_mem hclosing (interior?_eq_append hinner)
  dsimp only
  rw [Text.byteSize_opening, Text.byteSize_opening, Text.byteSize_append]
  omega

/-- The first closing brace behind an opening one balances it exactly if the text between them is
level. -/
theorem closingBrace?_eq_first_iff (front rest : Text) :
    closingBrace? (front ++ '{' :: (body ++ '}' :: rest)) front.byteSize =
      some (front.byteSize + Text.byteSize ('{' :: body)) ↔ Level body := by
  rw [level_iff_enclosed hclosing]
  constructor
  · intro h
    rw [closingBrace?_brace] at h
    obtain ⟨⟨inner, more⟩, hinner, hsize⟩ := Option.map_eq_some_iff.mp h
    obtain ⟨middle, rfl⟩ := isPrefix_of_not_mem hclosing (interior?_eq_append hinner)
    have hmiddle : middle = [] := by
      have hlength := Text.length_le_byteSize middle
      dsimp only at hsize
      rw [Text.byteSize_opening, Text.byteSize_opening, Text.byteSize_append] at hsize
      exact List.length_eq_zero_iff.mp (by omega)
    rw [hmiddle, List.append_nil] at hinner
    exact enclosed_of_interior? hinner
  · exact fun h => closingBrace?_opening (h.interior?_eq rest) front

end Block

/-! ### The steps of a document -/

/-- Where the brace at the offset `opening`, behind which `body` and the first closing brace stand, is
balanced. -/
structure Closes (source : Text) (opening : Nat) (body : Text) : Prop where
  le : ∀ close, closingBrace? source opening = some close →
    opening + Text.byteSize ('{' :: body) ≤ close
  eq_iff : closingBrace? source opening = some (opening + Text.byteSize ('{' :: body)) ↔ Level body

theorem Keyframes.StepIn.closes {source front run body : Text} {step : Rule}
    (h : StepIn source front run body step) :
    Closes source (Text.byteSize (front ++ run)) body := by
  obtain ⟨ahead, rest, rfl, hform⟩ := h.form
  rw [hform.text_eq, ← List.append_assoc]
  exact {
    le := fun _ hclose => le_of_closingBrace? hform.closing hclose
    eq_iff := closingBrace?_eq_first_iff hform.closing (front ++ run) rest }

/-- **Ends of steps.** Every step of a keyframes block, in whatever document at whatever depth, stands
in the source and has the declarations of the text from its brace to the first closing one. The search
for the brace that closes its own never ends before that one, and it ends there exactly if the text is
level. -/
theorem Config.forall₂_closes (config : Config) (source : Text) {depth : Nat} {inner : Document}
    {record : Record Keyframes} (h : (config.parse source).Holds depth inner)
    (hrecord : record ∈ inner.sheet.keyframes.getD []) :
    ∃ lead block, Document.Origin config.maxNesting source depth inner record lead block ∧
      List.Forall₂ (fun site step => ∃ run body,
          Keyframes.StepIn source (lead ++ site.before.reverse) run body step ∧
          Closes source (Text.byteSize (lead ++ site.before.reverse ++ run)) body)
        (Keyframes.stepSites block) record.content.steps := by
  obtain ⟨lead, block, horigin⟩ := h.exists_origin hrecord
  exact ⟨lead, block, horigin, horigin.forall₂_stepIn.imp fun site step ⟨run, body, hstep⟩ =>
    ⟨run, body, hstep, hstep.closes⟩⟩

/-- A step with an opening brace in a comment. -/
def annotated : Text :=
  "@keyframes k\x7bx \x7b/* \x7b */b:c;\x7d\x7d".toList

def annotatedStep : Rule :=
  ⟨"x".toList, [⟨"b".toList, "c".toList⟩]⟩

def annotatedKeyframes : Record Keyframes :=
  ⟨none, 1, ⟨"k".toList, [annotatedStep]⟩⟩

theorem parse_annotated : ({} : Config).parse annotated =
    ⟨{ keyframes := some [annotatedKeyframes] }⟩ :=
  rfl

theorem Config.forall₂_closes_annotated :
    (({} : Config).parse annotated).Holds 0 (({} : Config).parse annotated) ∧
      annotatedKeyframes ∈ (({} : Config).parse annotated).sheet.keyframes.getD [] ∧
      Keyframes.StepIn annotated "@keyframes k\x7b".toList "x ".toList "/* \x7b */b:c;".toList
        annotatedStep ∧
      closingBrace? annotated 15 = some 27 := by
  have hrecord : annotatedKeyframes ∈
      (({} : Config).parse annotated).sheet.keyframes.getD [] := by
    rw [parse_annotated]
    exact List.mem_cons_self
  refine ⟨.whole, hrecord, ?_⟩
  obtain ⟨lead, block, horigin, hsteps⟩ := forall₂_closes {} annotated .whole hrecord
  obtain ⟨rfl, hblock⟩ := horigin.whole
  have hsites : ∀ block ∈ Block.sites Keyframes.header annotated, Keyframes.stepSites block =
      [⟨"@keyframes k\x7b".toList.reverse, annotatedStep⟩] := by
    decide
  rw [hsites block hblock] at hsteps
  obtain ⟨⟨run, body, hstep, hcloses⟩, -⟩ := List.forall₂_cons.mp hsteps
  rw [List.nil_append, List.reverse_reverse] at hstep hcloses
  have hform : Keyframes.StepForm "x \x7b/* \x7b */b:c;\x7d\x7d".toList "x ".toList
      "/* \x7b */b:c;".toList ['}'] annotatedStep :=
    ⟨rfl, by decide, List.all_eq_true.mp rfl, by decide, rfl⟩
  have hlast : ∀ c ∈ ("@keyframes k\x7b".toList).getLast?, Keyframes.isStepChar c = false := by
    rintro c ⟨⟩
    decide
  have hplace : Keyframes.StepIn annotated "@keyframes k\x7b".toList "x ".toList
      "/* \x7b */b:c;".toList annotatedStep :=
    ⟨⟨_, _, rfl, hform⟩, hlast⟩
  obtain ⟨rfl, rfl⟩ := hstep.unique hplace
  have hlevel : Level "/* \x7b */b:c;".toList := (level_iff_enclosed (by decide)).mpr (by decide)
  exact ⟨hstep, hcloses.eq_iff.mpr hlevel⟩

/-- A step with a closing brace in a comment. -/
def interrupted : Text :=
  "@keyframes k\x7ba\x7b/* \x7d */b:c;\x7d\x7d".toList

/-- The step ends at the brace in the comment, without declarations. -/
theorem Config.parse_interrupted_ne :
    ({} : Config).parse interrupted =
        ⟨{ keyframes := some [⟨none, 1, ⟨"k".toList, [⟨"a".toList, []⟩]⟩⟩] }⟩ ∧
      interrupted = "@keyframes k\x7ba".toList ++ '{' :: ("/* \x7d */b:c;".toList ++ ['}', '}']) ∧
      closingBrace? interrupted (Text.byteSize "@keyframes k\x7ba".toList) =
        some (Text.byteSize ("@keyframes k\x7ba".toList ++ '{' :: "/* \x7d */b:c;".toList)) ∧
      Declaration.matching (Text.trim "/* \x7d */b:c;".toList) =
        [⟨"b".toList, "c".toList⟩] := by
  refine ⟨rfl, ?_⟩
  decide

end Stylesheet
