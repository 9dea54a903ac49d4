import Mathlib.Data.List.Forall2
import Stylesheet.Proofs.RestingPlaces
import Stylesheet.Proofs.SheetKinds

/-!
# Comments of style rules

The scan for style rules skips a run of blanks and comments before each rule. What is read back from
the rule is what was skipped, because a rule, an at-rule and a stray brace end in a character at which
reading back ends.
-/

namespace Stylesheet

theorem Adjacency.attached_eq_present (adjacency : Adjacency) (before : Text) :
    adjacency.attached before = present (adjacency.readBack none before).reverse := by
  rw [← getD_attached, present_getD (attached_ne_some_nil adjacency before)]

namespace StyleRule

variable {source prior ahead : Text} {run tail : Run}

/-- What was read before the run that is skipped ends in no comment. -/
theorem bare_of_reaches (h : Reaches move source prior run ahead) (adjacency : Adjacency) :
    adjacency.Bare prior.reverse := by
  rcases h.prior_cases with rfl | ⟨front, piece, rest, rfl, hpiece, hother, hcovers⟩
  · exact adjacency.bare_nil
  cases piece_of_covers hpiece hcovers with
  | filler filler => exact absurd rfl (hother filler)
  | mark hends _ =>
      rw [← List.append_assoc, List.reverse_append]
      exact bare_mark hends _

theorem attached_of_reaches (h : Reaches move source prior run ahead)
    (hopener : ∀ body ∈ run.bodies, ¬['/', '*'] <:+: body)
    (htail : Adjacency.strict.Nearest run tail) :
    Adjacency.strict.attached (prior ++ run.text).reverse =
      present (tail.bodies.map Comment.normalize) := by
  have hnearer : ∀ body ∈ tail.bodies, ¬['/', '*'] <:+: body :=
    fun body hbody => hopener body (Run.bodies_subset htail.suffix hbody)
  rw [Adjacency.attached_eq_present,
    Adjacency.readBack_run htail hnearer fun _ => bare_of_reaches h _, List.reverse_reverse]

/-- **Comments of style rules.** Before each rule the scan skips a run of blanks and comments, which
begins behind the piece of text that was read last. If no comment of the run holds an opener, then the
comments of the rule are those of the longest tail of the run in which no form feed stands behind a
comment. -/
theorem forall₂_comment (source : Text) :
    List.Forall₂ (fun site record =>
      (∃ prior run ahead tail, Reaches move source prior run ahead ∧
        site.before = (prior ++ run.text).reverse ∧ Adjacency.strict.Nearest run tail) ∧
      ∀ prior run ahead tail, Reaches move source prior run ahead →
        site.before = (prior ++ run.text).reverse → Adjacency.strict.Nearest run tail →
        (∀ body ∈ run.bodies, ¬['/', '*'] <:+: body) →
          record.comment = present (tail.bodies.map Comment.normalize))
      (scan move source) (records source) := by
  refine List.forall₂_map_right_iff.mpr (List.forall₂_same.mpr fun site hsite => ⟨?_, ?_⟩)
  · obtain ⟨prior, run, ahead, hreaches, hbefore⟩ := strides_move.exists_reaches hsite
    obtain ⟨tail, htail⟩ := Adjacency.strict.exists_nearest run
    exact ⟨prior, run, ahead, tail, hreaches, hbefore, htail⟩
  · intro prior run ahead tail hreaches hbefore htail hopener
    rw [Site.record, hbefore]
    exact attached_of_reaches hreaches hopener htail

def fed : Text :=
  "@c;".toList ++ fedRun.text ++ "d\x7b\x7d".toList

theorem reaches_fed : Reaches move fed "@c;".toList fedRun "d\x7b\x7d".toList := by
  have hrule : Reaches move fed "@c;".toList [] (fedRun.text ++ "d\x7b\x7d".toList) :=
    .element "@c;".toList (by decide) (fun filler => by cases filler <;> simp [Filler.text]) .start
      (.inl rfl)
  exact .skip (.blank '\n' rfl) (.skip (.comment " b ".toList (by decide))
    (.skip (.blank '\x0c' rfl) (.skip (.comment "a".toList (by decide)) hrule (.inl rfl))
      (.inl rfl)) (.inl rfl)) (.inl rfl)

theorem nearest_fed : Adjacency.strict.Nearest fedRun fedRun.tail where
  suffix := List.tail_suffix fedRun
  unparted := by
    rw [Adjacency.Unparted]
    decide
  longest other hother hunparted := by
    rcases List.suffix_cons_iff.mp hother with rfl | hother
    · refine absurd hunparted ?_
      rw [Adjacency.Unparted]
      decide
    · exact hother

theorem forall₂_comment_fed :
    Reaches move fed "@c;".toList fedRun "d\x7b\x7d".toList ∧
      Adjacency.strict.Nearest fedRun fedRun.tail ∧
      (∀ body ∈ fedRun.bodies, ¬['/', '*'] <:+: body) ∧
      (records fed).map Record.comment = [some ["b".toList]] := by
  have hopener : ∀ body ∈ fedRun.bodies, ¬['/', '*'] <:+: body := by decide
  refine ⟨reaches_fed, nearest_fed, hopener, ?_⟩
  have hscan : scan move fed = [⟨("@c;".toList ++ fedRun.text).reverse, ⟨"d".toList, []⟩⟩] := rfl
  have hall := forall₂_comment fed
  rw [hscan] at hall
  obtain ⟨record, others, ⟨-, hcomment⟩, hothers, hrecords⟩ := List.forall₂_cons_left_iff.mp hall
  obtain rfl := List.forall₂_nil_left_iff.mp hothers
  rw [hrecords, List.map_singleton, hcomment _ _ _ _ reaches_fed rfl nearest_fed hopener]
  rfl

end StyleRule

end Stylesheet
