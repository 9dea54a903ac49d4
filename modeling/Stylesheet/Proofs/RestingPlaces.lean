import Stylesheet.Proofs.SkippedRuns

/-!
# Resting places

At each place where the scan for style rules stands, the text before it ends in a brace, a semicolon
or a whole comment. So what is found when comments are read back from there is what was scanned: the
search leaves the scanned text only if it takes an opener with a slash behind it for a closer.
-/

namespace Stylesheet

section Pairs

variable {x y : Char} {text : Text}

theorem exists_last_pair (h : [x, y] <:+: text) :
    ∃ front back, text = front ++ x :: y :: back ∧ ¬[x, y] <:+: back := by
  induction text with
  | nil => exact absurd h (by simp)
  | cons c text ih =>
      by_cases htext : [x, y] <:+: text
      · obtain ⟨front, back, rfl, hback⟩ := ih htext
        exact ⟨c :: front, back, rfl, hback⟩
      · obtain ⟨back, hback⟩ := (List.infix_cons_iff.mp h).resolve_right htext
        obtain ⟨rfl, rfl⟩ := List.cons.inj hback
        refine ⟨[], back, rfl, fun hpart => htext ?_⟩
        exact hpart.trans (List.suffix_cons y back).isInfix

end Pairs

namespace StyleRule

/-- The text before a place at which the scan for style rules stands, nearest character first. -/
inductive Rested : (before : Text) → Prop
  | nil : Rested []
  | mark {c : Char} (ends : c = '{' ∨ c = '}' ∨ c = ';') (before : Text) : Rested (c :: before)
  | blank {c : Char} {before : Text} (blank : isBlank c = true) (rested : Rested before) :
      Rested (c :: before)
  | comment {body before : Text} (closer : ¬['*', '/'] <:+: body) (rested : Rested before) :
      Rested ('/' :: '*' :: (body.reverse ++ '*' :: '/' :: before))

variable {before text : Text}

/-- A rule, or a brace that is passed over alone, ends in a brace. -/
theorem readRule_covers (text : Text) : readRule text = .stop ∨
    ∃ front c rest, text = front ++ [c] ++ rest ∧ (c = '{' ∨ c = '}') ∧
      (readRule text).Covers (front ++ [c]) := by
  unfold readRule
  cases hcut : text.cut? '{' with
  | none => exact .inl rfl
  | some cut =>
      obtain ⟨front, opened⟩ := cut
      obtain ⟨rfl, -⟩ := Text.cut?_eq_some_iff.mp hcut
      dsimp only
      by_cases hempty : front.trim.isEmpty = true
      · refine .inr ⟨front, '{', opened, by simp, .inl rfl, .inl ?_⟩
        rw [if_pos hempty, List.length_append, List.length_singleton]
      · rw [if_neg hempty]
        cases hinterior : interior? opened with
        | none => exact .inl rfl
        | some block =>
            obtain ⟨interior, rest⟩ := block
            obtain rfl := interior?_eq_append hinterior
            let found : Rule := ⟨front.trim, Declaration.splitStripped interior⟩
            have hlength : front.length + interior.length + 2 =
                (front ++ '{' :: interior ++ ['}']).length := by
              simp only [List.length_append, List.length_cons, List.length_nil]
              omega
            refine .inr ⟨front ++ '{' :: interior, '}', rest, by simp, .inr rfl, .inr ⟨found, ?_⟩⟩
            rw [← hlength]

theorem atRule?_ends {piece rest : Text} (h : atRule? text = some (piece, rest)) :
    ∃ front c, piece = front ++ [c] ∧ (c = '{' ∨ c = '}' ∨ c = ';') := by
  obtain ⟨front, -, ⟨-, rfl⟩ | ⟨opened, interior, -, -, rfl⟩⟩ := atRule?_eq_some_iff.mp h
  · exact ⟨front, ';', rfl, .inr (.inr rfl)⟩
  · exact ⟨front ++ '{' :: interior, '}', rfl, .inr (.inl rfl)⟩

/-- A piece of text that one move covers. -/
inductive Piece : (piece : Text) → Prop
  | filler (filler : Filler) : Piece filler.text
  | mark {c : Char} (ends : c = '{' ∨ c = '}' ∨ c = ';') (front : Text) : Piece (front ++ [c])

theorem Piece.ne_nil {piece : Text} (h : Piece piece) : piece ≠ [] := by
  cases h with
  | filler filler => exact filler.text_ne_nil
  | mark _ front => simp

theorem exists_piece (htext : text ≠ []) : move text = .stop ∨
    ∃ piece rest, text = piece ++ rest ∧ (move text).Covers piece ∧ Piece piece := by
  obtain ⟨c, text, rfl⟩ := List.exists_cons_of_ne_nil htext
  by_cases hat : c = '@'
  · subst hat
    rw [move_atRule]
    cases hrule : atRule? ('@' :: text) with
    | none => exact .inl rfl
    | some cut =>
        obtain ⟨piece, rest⟩ := cut
        obtain ⟨front, c, rfl, hc⟩ := atRule?_ends hrule
        exact .inr ⟨_, rest, atRule?_eq_append hrule, .inl rfl, .mark hc front⟩
  by_cases hblank : isBlank c = true
  · exact .inr ⟨[c], text, rfl, .inl (move_blank hblank), .filler (.blank c hblank)⟩
  rw [Bool.not_eq_true] at hblank
  by_cases hcomment : c = '/' → text.head? ≠ some '*'
  · rw [move_readRule hblank hat hcomment]
    refine (readRule_covers (c :: text)).imp_right ?_
    rintro ⟨front, d, rest, hsplit, hd, hcovers⟩
    exact ⟨front ++ [d], rest, hsplit, hcovers, .mark (hd.imp_right .inl) front⟩
  · simp only [Classical.not_imp, not_not] at hcomment
    obtain ⟨rfl, hhead⟩ := hcomment
    obtain ⟨inside, rfl⟩ := List.head?_eq_some_iff.mp hhead
    rw [move_comment, Comment.pattern]
    cases hbody : Comment.body? inside with
    | none => exact .inl rfl
    | some cut =>
        obtain ⟨body, rest⟩ := cut
        obtain ⟨closer, hsplit⟩ := Filler.of_body? hbody
        exact .inr ⟨_, rest, hsplit, .inl (by simp [Filler.text, Reading.text, passOver]),
          .filler (.comment body closer)⟩

theorem strides_move : Strides move := by
  intro text htext
  refine (exists_piece htext).imp_right ?_
  rintro ⟨piece, rest, hsplit, hcovers, hpiece⟩
  exact ⟨piece, rest, hpiece.ne_nil, hsplit, hcovers⟩

theorem piece_of_covers {piece rest : Text} (hpiece : piece ≠ [])
    (h : (move (piece ++ rest)).Covers piece) : Piece piece := by
  have htext : piece ++ rest ≠ [] := fun hnil => hpiece (List.append_eq_nil_iff.mp hnil).1
  rcases exists_piece htext with hstop | ⟨covered, ahead, hsplit, hcovers, hcovered⟩
  · have hlength := h.length_eq
    rw [hstop] at hlength
    exact absurd (List.length_eq_zero_iff.mp hlength.symm) hpiece
  · rwa [h.eq hcovers (List.prefix_append _ _) ⟨ahead, hsplit.symm⟩]

theorem Rested.append {piece : Text} (h : Rested before) (hpiece : Piece piece) :
    Rested (piece.reverse ++ before) := by
  cases hpiece with
  | filler filler =>
      cases filler with
      | blank c hblank => exact h.blank hblank
      | comment body hcloser => simpa [Filler.text] using h.comment hcloser
  | mark hends front =>
      rw [List.reverse_append]
      exact .mark hends _

/-- A whole scan. -/
theorem rested_of_mem_scan {site : Site Rule} (h : site ∈ scan move text) : Rested site.before := by
  have hkeep : ∀ {before piece rest : Text}, Rested before → piece ≠ [] →
      (move (piece ++ rest)).Covers piece → Rested (piece.reverse ++ before) :=
    fun hbefore hpiece hcovers => hbefore.append (piece_of_covers hpiece hcovers)
  obtain ⟨_, hrested⟩ := strides_move.invariant (P := fun before _ => Rested before) hkeep .nil site h
  exact hrested

/-- A comment that begins with a slash, then blanks, and then an opener: read backwards, the opener
of that comment and the slash behind it look like a closer. -/
def Reopens (text : Text) : Prop :=
  ∃ blanks, (∀ c ∈ blanks, Adjacency.strict.allows c = true) ∧
    "/*/".toList ++ blanks ++ "/*".toList <:+: text

theorem Reopens.of_infix {piece : Text} (h : Reopens piece) (hpiece : piece <:+: text) :
    Reopens text := by
  obtain ⟨blanks, hblanks, hpart⟩ := h
  exact ⟨blanks, hblanks, hpart.trans hpiece⟩

theorem bare_mark {adjacency : Adjacency} {c : Char} (h : c = '{' ∨ c = '}' ∨ c = ';')
    (before : Text) : adjacency.Bare (c :: before) := by
  rcases h with rfl | rfl | rfl <;> exact Adjacency.bare_cons (by decide) (by decide) before

/-- Between an opener and a place inside its comment no other comment is found. -/
theorem readBack_opener {inside : Text} (hcloser : ¬['*', '/'] <:+: inside)
    (hslash : ∀ blanks, (∀ c ∈ blanks, Adjacency.strict.allows c = true) → inside ≠ '/' :: blanks)
    (before : Text) :
    Adjacency.strict.readBack none (inside.reverse ++ '*' :: before) = [] := by
  induction inside using List.reverseRecOn with
  | nil => exact Adjacency.bare_cons (by decide) (by decide) before
  | append_singleton inside c ih =>
      have hnext : c = '/' → (inside.reverse ++ '*' :: before).head? ≠ some '*' := by
        rintro rfl hhead
        rcases List.eq_nil_or_concat inside with rfl | ⟨front, d, rfl⟩
        · exact hslash [] (List.forall_mem_nil _) rfl
        · rw [List.concat_eq_append, List.reverse_append] at hhead
          obtain rfl := Option.some.inj hhead
          exact hcloser ⟨front, [], by simp⟩
      rw [List.reverse_append, List.reverse_singleton, List.singleton_append, List.cons_append,
        Adjacency.readBack_outside hnext]
      by_cases hallows : Adjacency.strict.allows c = true
      · rw [if_pos hallows]
        refine ih (fun hpart => hcloser (hpart.trans (List.prefix_append _ _).isInfix)) ?_
        rintro blanks hblanks rfl
        refine hslash (blanks ++ [c]) ?_ rfl
        exact List.forall_mem_append.mpr ⟨hblanks, List.forall_mem_singleton.mpr hallows⟩
      · rw [if_neg hallows]

/-- The comments before a place of the scan are found in the text that was scanned. -/
theorem readBack_rested (h : Rested before) (hreopens : ¬Reopens before.reverse) {more : Text}
    (hmore : Adjacency.strict.readBack none more = []) :
    Adjacency.strict.readBack none (before ++ more) = Adjacency.strict.readBack none before := by
  induction h with
  | nil => exact hmore
  | mark hends before => rw [bare_mark hends, List.cons_append, bare_mark hends]
  | @blank c before hblank _ ih =>
      have hslash : c ≠ '/' := by
        rintro rfl
        exact absurd hblank (by decide)
      rw [List.cons_append, Adjacency.readBack_outside fun heq => absurd heq hslash,
        Adjacency.readBack_outside fun heq => absurd heq hslash]
      by_cases hallows : Adjacency.strict.allows c = true
      · rw [if_pos hallows, if_pos hallows]
        refine ih fun h => hreopens (h.of_infix ?_)
        rw [List.reverse_cons]
        exact (List.prefix_append _ _).isInfix
      · rw [if_neg hallows, if_neg hallows]
  | @comment body before hcloser _ ih =>
      by_cases hbody : ['/', '*'] <:+: body
      · -- The last opener in the body is taken for the opener of the comment.
        obtain ⟨front, back, rfl, hback⟩ := exists_last_pair hbody
        have hfront : ¬['*', '/'] <:+: front := fun hpart =>
          hcloser (hpart.trans (List.prefix_append _ _).isInfix)
        have hslash : ∀ blanks, (∀ c ∈ blanks, Adjacency.strict.allows c = true) →
            front ≠ '/' :: blanks := by
          rintro blanks hblanks rfl
          exact hreopens ⟨blanks, hblanks, before.reverse, back ++ "*/".toList, by simp⟩
        have hread : ∀ more, Adjacency.strict.readBack none
            ('/' :: '*' :: ((front ++ '/' :: '*' :: back).reverse ++ '*' :: '/' :: more)) =
              [Comment.normalize back] := by
          intro more
          have htext : (front ++ '/' :: '*' :: back).reverse ++ '*' :: '/' :: more =
              back.reverse ++ '*' :: '/' :: (front.reverse ++ '*' :: '/' :: more) := by
            simp
          rw [htext, Adjacency.readBack_comment hback, readBack_opener hfront hslash]
        have hsame := (hread (before ++ more)).trans (hread before).symm
        simpa using hsame
      · have hrest := ih fun h => hreopens (h.of_infix ⟨[], "/*".toList ++ body ++ "*/".toList, by simp⟩)
        have hsame : Adjacency.strict.readBack none
            ('/' :: '*' :: (body.reverse ++ '*' :: '/' :: (before ++ more))) =
              Adjacency.strict.readBack none
                ('/' :: '*' :: (body.reverse ++ '*' :: '/' :: before)) := by
          rw [Adjacency.readBack_comment hbody, Adjacency.readBack_comment hbody, hrest]
        simpa using hsame

end StyleRule

end Stylesheet
