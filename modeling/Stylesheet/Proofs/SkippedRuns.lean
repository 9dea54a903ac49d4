import Stylesheet.Proofs.AttachedComments

/-!
# Skipped runs

A scan comes to what it finds over blanks and comments. Read forward, a comment ends with the first
closer behind its opener; read back, it begins with the last opener before its closer. Where no
comment of a run holds an opener, the two readings agree on the run, and reading back goes on through
it as long as nothing parts a comment from what stands behind it.
-/

namespace Stylesheet

/-- A body ends with the first closer. -/
theorem Comment.not_closer_of_body? {text body rest : Text} (h : body? text = some (body, rest)) :
    ¬['*', '/'] <:+: body := by
  fun_induction body? text generalizing body with
  | case1 => contradiction
  | case2 text =>
      obtain ⟨rfl, -⟩ := Prod.mk.inj (Option.some.inj h)
      simp
  | case3 c text hcloser ih =>
      obtain ⟨⟨inner, _⟩, hinner, hpair⟩ := Option.map_eq_some_iff.mp h
      obtain ⟨rfl, rfl⟩ := Prod.mk.inj hpair
      intro hpart
      obtain ⟨more, hmore⟩ := (List.infix_cons_iff.mp hpart).resolve_right (ih hinner)
      obtain ⟨rfl, rfl⟩ := List.cons.inj hmore
      exact hcloser _ rfl (body?_local hinner).1

/-- A piece of text that says nothing: a blank, or a whole comment. -/
inductive Filler where
  | blank (c : Char) (blank : isBlank c = true)
  | comment (body : Text) (closer : ¬['*', '/'] <:+: body)

namespace Filler

def text : Filler → Text
  | .blank c _ => [c]
  | .comment body _ => '/' :: '*' :: (body ++ ['*', '/'])

/-- The body of a comment. -/
def body? : Filler → Option Text
  | .blank _ _ => none
  | .comment body _ => some body

theorem text_ne_nil (filler : Filler) : filler.text ≠ [] := by
  cases filler <;> exact List.cons_ne_nil _ _

theorem of_body? {inside body rest : Text} (h : Comment.body? inside = some (body, rest)) :
    ∃ closer, '/' :: '*' :: inside = (comment body closer).text ++ rest := by
  have htext := congrArg ('/' :: '*' :: ·) (Comment.body?_local h).1
  exact ⟨Comment.not_closer_of_body? h, htext.trans (by simp [text])⟩

end Filler

/-- Blanks and comments, one after the other. -/
abbrev Run := List Filler

namespace Run

def text (run : Run) : Text :=
  run.flatMap Filler.text

/-- The bodies of the comments of a run. -/
def bodies (run : Run) : List Text :=
  run.filterMap Filler.body?

variable {run : Run}

theorem text_concat (run : Run) (filler : Filler) :
    text (run ++ [filler]) = run.text ++ filler.text := by
  rw [text, List.flatMap_append, List.flatMap_singleton]
  rfl

theorem bodies_concat (run : Run) (filler : Filler) :
    bodies (run ++ [filler]) = run.bodies ++ filler.body?.toList := by
  rw [bodies, List.filterMap_append]
  cases filler <;> rfl

theorem exists_of_mem_bodies {body : Text} (hbody : body ∈ run.bodies) :
    ∃ closer, .comment body closer ∈ run := by
  obtain ⟨filler, hfiller, hsome⟩ := List.mem_filterMap.mp hbody
  cases filler with
  | blank c hblank => contradiction
  | comment inner closer =>
      obtain rfl := Option.some.inj hsome
      exact ⟨closer, hfiller⟩

theorem bodies_subset {tail : Run} (h : tail <:+ run) : tail.bodies ⊆ run.bodies :=
  (h.sublist.filterMap Filler.body?).subset

end Run

/-- A scan of `source` comes to `ahead`: it has read `prior`, which is empty or ends with something
other than blanks and comments, and then it has skipped `run`. -/
inductive Reaches {α : Type} (move : Text → Move α) (source : Text) :
    (prior : Text) → (run : Run) → (ahead : Text) → Prop
  | start : Reaches move source [] [] source
  | skip {prior ahead : Text} {run : Run} (filler : Filler)
      (reached : Reaches move source prior run (filler.text ++ ahead))
      (made : (move (filler.text ++ ahead)).Covers filler.text) :
      Reaches move source prior (run ++ [filler]) ahead
  | element {prior ahead : Text} {run : Run} (piece : Text) (nonempty : piece ≠ [])
      (other : ∀ filler : Filler, piece ≠ filler.text)
      (reached : Reaches move source prior run (piece ++ ahead))
      (made : (move (piece ++ ahead)).Covers piece) :
      Reaches move source (prior ++ run.text ++ piece) [] ahead

section Scans

variable {α : Type} {move : Text → Move α} {source prior ahead : Text} {run : Run}

theorem Reaches.eq_append (h : Reaches move source prior run ahead) :
    source = prior ++ run.text ++ ahead := by
  induction h with
  | start => rfl
  | skip filler _ _ ih => rw [ih, Run.text_concat]; simp
  | element piece _ _ _ _ ih => rw [ih]; simp [Run.text]

/-- What was read before the run ends with a piece that is neither a blank nor a comment. -/
theorem Reaches.prior_cases (h : Reaches move source prior run ahead) :
    prior = [] ∨ ∃ front piece rest, prior = front ++ piece ∧ piece ≠ [] ∧
      (∀ filler : Filler, piece ≠ filler.text) ∧ (move (piece ++ rest)).Covers piece := by
  induction h with
  | start => exact .inl rfl
  | skip _ _ _ ih => exact ih
  | element piece hpiece hother _ hmade _ => exact .inr ⟨_, piece, _, rfl, hpiece, hother, hmade⟩

/-- One more move. -/
theorem Reaches.exists_next {piece : Text} (h : Reaches move source prior run (piece ++ ahead))
    (hpiece : piece ≠ []) (hcovers : (move (piece ++ ahead)).Covers piece) :
    ∃ prior' run', Reaches move source prior' run' ahead ∧
      prior' ++ Run.text run' = prior ++ run.text ++ piece := by
  by_cases hfiller : ∃ filler : Filler, piece = filler.text
  · obtain ⟨filler, rfl⟩ := hfiller
    refine ⟨prior, run ++ [filler], h.skip filler hcovers, ?_⟩
    rw [Run.text_concat, List.append_assoc]
  · rw [not_exists] at hfiller
    exact ⟨_, [], h.element piece hpiece hfiller hcovers, List.append_nil _⟩

/-- Each piece of a run is reached. -/
theorem Reaches.exists_of_mem (h : Reaches move source prior run ahead) {filler : Filler}
    (hfiller : filler ∈ run) : ∃ earlier later : Run, run = earlier ++ filler :: later ∧
      Reaches move source prior earlier (filler.text ++ (later.text ++ ahead)) := by
  induction h with
  | start => exact absurd hfiller List.not_mem_nil
  | @skip _ ahead _ last hreached _ ih =>
      rcases List.mem_append.mp hfiller with hfiller | hfiller
      · obtain ⟨earlier, later, rfl, hreaches⟩ := ih hfiller
        refine ⟨earlier, later ++ [last], by simp, ?_⟩
        rwa [Run.text_concat, List.append_assoc]
      · obtain rfl := List.mem_singleton.mp hfiller
        exact ⟨_, [], rfl, hreached⟩
  | element => exact absurd hfiller List.not_mem_nil

/-- What a scan finds from a place on that it comes to. -/
theorem Reaches.scan_eq (h : Reaches move source prior run ahead) : ∃ finds,
    scan move source = finds ++ scanFrom move 0 (prior ++ run.text).reverse ahead := by
  induction h with
  | start => exact ⟨[], rfl⟩
  | skip filler _ hmade ih =>
      obtain ⟨finds, hscan⟩ := ih
      obtain ⟨others, -, hnext⟩ := hmade.exists_finds filler.text_ne_nil _
      exact ⟨finds ++ others, by rw [hscan, hnext, Run.text_concat]; simp⟩
  | element piece hpiece _ _ hmade ih =>
      obtain ⟨finds, hscan⟩ := ih
      obtain ⟨others, -, hnext⟩ := hmade.exists_finds hpiece _
      exact ⟨finds ++ others, by rw [hscan, hnext]; simp [Run.text]⟩

/-- A scan that does not stop comes to the end. -/
theorem Strides.exists_reaches_end (hmove : Strides move) (hgoes : ∀ text, move text ≠ .stop)
    (source : Text) : ∃ prior run, Reaches move source prior run [] := by
  have hfrom : ∀ ahead prior run, Reaches move source prior run ahead →
      ∃ prior run, Reaches move source prior run [] := by
    intro ahead
    induction ahead using hmove.induction with
    | hnil => exact fun prior run hreaches => ⟨prior, run, hreaches⟩
    | hstop text _ hstop => exact absurd hstop (hgoes text)
    | hpiece piece rest hpiece hcovers ih =>
        intro prior run hreaches
        obtain ⟨prior, run, hnext, -⟩ := hreaches.exists_next hpiece hcovers
        exact ih prior run hnext
  exact hfrom source [] [] .start

/-- Everything that is found is reached. -/
theorem Strides.exists_reaches (hmove : Strides move) {site : Site α}
    (hsite : site ∈ scan move source) : ∃ prior run ahead, Reaches move source prior run ahead ∧
      site.before = (prior ++ run.text).reverse := by
  have hkeep : ∀ {before piece rest : Text},
      (∃ prior run, Reaches move source prior run (piece ++ rest) ∧
        before = (prior ++ Run.text run).reverse) →
      piece ≠ [] → (move (piece ++ rest)).Covers piece →
      ∃ prior run, Reaches move source prior run rest ∧
        piece.reverse ++ before = (prior ++ Run.text run).reverse := by
    rintro _ piece rest ⟨prior, run, hreaches, rfl⟩ hpiece hcovers
    obtain ⟨prior', run', hnext, htext⟩ := hreaches.exists_next hpiece hcovers
    exact ⟨prior', run', hnext, by rw [htext]; simp⟩
  obtain ⟨ahead, prior, run, hreaches, hbefore⟩ := hmove.invariant
    (P := fun before ahead => ∃ prior run, Reaches move source prior run ahead ∧
      before = (prior ++ Run.text run).reverse) hkeep ⟨[], [], .start, rfl⟩ site hsite
  exact ⟨prior, run, ahead, hreaches, hbefore⟩

end Scans

namespace Adjacency

variable {adjacency : Adjacency} {run tail : Run} {filler : Filler} {prior : Text}

/-- Whether a comment before a piece is attached to what stands behind the piece. -/
def joins (adjacency : Adjacency) : Filler → Bool
  | .blank c _ => adjacency.allows c
  | .comment _ _ => true

/-- No comment of a run is parted from what stands behind the run. -/
def Unparted (adjacency : Adjacency) (run : Run) : Prop :=
  run.Pairwise fun filler later => filler.body? ≠ none → adjacency.joins later = true

/-- The longest tail of a run in which no comment is parted from what stands behind the run. -/
structure Nearest (adjacency : Adjacency) (run tail : Run) : Prop where
  suffix : tail <:+ run
  unparted : adjacency.Unparted tail
  longest : ∀ other, other <:+ run → adjacency.Unparted other → other <:+ tail

theorem exists_nearest (adjacency : Adjacency) (run : Run) : ∃ tail, adjacency.Nearest run tail := by
  induction run with
  | nil => exact ⟨[], List.suffix_refl [], .nil, fun other hother _ => hother⟩
  | cons filler run ih =>
      by_cases hunparted : adjacency.Unparted (filler :: run)
      · exact ⟨filler :: run, List.suffix_refl _, hunparted, fun other hother _ => hother⟩
      · obtain ⟨tail, hsuffix, htail, hlongest⟩ := ih
        refine ⟨tail, hsuffix.trans (List.suffix_cons filler run), htail, fun other hother hother' => ?_⟩
        rcases List.suffix_cons_iff.mp hother with rfl | hother
        · exact absurd hother' hunparted
        · exact hlongest other hother hother'

namespace Nearest

/-- What ends a run is part of its tail. -/
theorem exists_concat (h : adjacency.Nearest (run ++ [filler]) tail) :
    ∃ nearer, tail = nearer ++ [filler] := by
  obtain ⟨nearer, hnearer⟩ := h.longest [filler] (List.suffix_append run [filler])
    (List.pairwise_singleton _ _)
  exact ⟨nearer, hnearer.symm⟩

theorem of_joins (h : adjacency.Nearest (run ++ [filler]) (tail ++ [filler]))
    (hjoins : adjacency.joins filler = true) : adjacency.Nearest run tail where
  suffix := List.suffix_append_self_iff.mp h.suffix
  unparted := (List.pairwise_append.mp h.unparted).1
  longest other hother hunparted := by
    have hconcat : adjacency.Unparted (other ++ [filler]) := by
      refine List.pairwise_append.mpr ⟨hunparted, List.pairwise_singleton _ _, ?_⟩
      intro _ _ later hlater _
      rwa [List.mem_singleton.mp hlater]
    have hsuffix : other ++ [filler] <:+ run ++ [filler] := List.suffix_append_self_iff.mpr hother
    exact List.suffix_append_self_iff.mp (h.longest _ hsuffix hconcat)

/-- In front of something that parts there are no comments. -/
theorem bodies_eq_nil (h : adjacency.Nearest (run ++ [filler]) tail)
    (hjoins : adjacency.joins filler = false) : tail.bodies = [] := by
  obtain ⟨nearer, rfl⟩ := h.exists_concat
  have hblank : filler.body? = none := by
    cases filler with
    | blank c hblank => rfl
    | comment body closer => contradiction
  refine List.filterMap_eq_nil_iff.mpr fun other hother => ?_
  rcases List.mem_append.mp hother with hother | hother
  · by_contra hbody
    have hparted := (List.pairwise_append.mp h.unparted).2.2 other hother filler List.mem_cons_self hbody
    rw [hjoins] at hparted
    contradiction
  · rwa [List.mem_singleton.mp hother]

end Nearest

/-- A run is read back as far as nothing parts its comments from the place behind it. -/
theorem readBack_run (htail : adjacency.Nearest run tail)
    (hopener : ∀ body ∈ tail.bodies, ¬['/', '*'] <:+: body)
    (hbare : tail = run → adjacency.Bare prior.reverse) :
    adjacency.readBack none (prior ++ run.text).reverse =
      (tail.bodies.map Comment.normalize).reverse := by
  induction run using List.reverseRecOn generalizing tail with
  | nil =>
      obtain rfl := List.eq_nil_of_suffix_nil htail.suffix
      rw [Run.text, List.flatMap_nil, List.append_nil]
      exact hbare rfl
  | append_singleton run filler ih =>
      obtain ⟨nearer, rfl⟩ := htail.exists_concat
      have hnearer : nearer = run → adjacency.Bare prior.reverse :=
        fun hrun => hbare (congrArg (· ++ [filler]) hrun)
      rw [Run.bodies_concat] at hopener
      obtain ⟨hbodies, hbody⟩ := List.forall_mem_append.mp hopener
      cases filler with
      | blank c hblank =>
          have hslash : c ≠ '/' := by
            rintro rfl
            exact absurd hblank (by decide)
          have htext : (prior ++ Run.text (run ++ [.blank c hblank])).reverse =
              c :: (prior ++ Run.text run).reverse := by
            rw [Run.text_concat, ← List.append_assoc, List.reverse_append]
            rfl
          rw [htext, readBack_outside fun hc => absurd hc hslash]
          cases hjoins : adjacency.allows c with
          | true =>
              rw [if_pos rfl, ih (htail.of_joins hjoins) hbodies hnearer, Run.bodies_concat]
              simp [Filler.body?]
          | false =>
              rw [htail.bodies_eq_nil hjoins]
              rfl
      | comment body closer =>
          have htext : (prior ++ Run.text (run ++ [.comment body closer])).reverse =
              '/' :: '*' :: (body.reverse ++ '*' :: '/' :: (prior ++ Run.text run).reverse) := by
            rw [Run.text_concat]
            simp [Filler.text]
          rw [htext, readBack_comment (hbody body List.mem_cons_self),
            ih (htail.of_joins rfl) hbodies hnearer, Run.bodies_concat]
          simp [Filler.body?]

end Adjacency

/-- Two comments with a form feed between them. -/
def fedRun : Run :=
  [.comment "a".toList (by decide), .blank '\x0c' rfl, .comment " b ".toList (by decide),
    .blank '\n' rfl]

example : Adjacency.strict.readBack none fedRun.text.reverse = ["b".toList] := by decide

example : Adjacency.loose.readBack none fedRun.text.reverse = ["b".toList, "a".toList] := by decide

end Stylesheet
