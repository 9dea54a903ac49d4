import Stylesheet.StyleRule
import Stylesheet.Proofs.BlockLemmas

/-!
# The pieces of style rules

Comments, at-rules and rules end at a character of their own, so what follows them has no part in
how they are read.
-/

namespace Stylesheet

variable {text front rest body : Text}

/-- The text up to its closer decides where a comment ends. -/
theorem Comment.body?_local (h : Comment.body? text = some (body, rest)) :
    text = body ++ '*' :: '/' :: rest ∧
      ∀ more, Comment.body? (body ++ '*' :: '/' :: more) = some (body, more) := by
  fun_induction Comment.body? text generalizing body with
  | case1 => simp at h
  | case2 text =>
      obtain ⟨rfl, rfl⟩ := Prod.mk.inj (Option.some.inj h)
      exact ⟨rfl, fun more => rfl⟩
  | case3 c text hcloser ih =>
      obtain ⟨⟨inner, _⟩, hinner, hpair⟩ := Option.map_eq_some_iff.mp h
      obtain ⟨rfl, rfl⟩ := Prod.mk.inj hpair
      obtain ⟨rfl, hlocal⟩ := ih hinner
      refine ⟨rfl, fun more => ?_⟩
      have hinside : ∀ tail, c = '*' → inner ++ '*' :: '/' :: more = '/' :: tail → False := by
        intro tail hc htail
        cases inner with
        | nil => simp at htail
        | cons d inner =>
            obtain rfl := (List.cons.inj htail).1
            exact hcloser _ hc rfl
      rw [List.cons_append, Comment.body?, hlocal more]
      · rfl
      · exact hinside

theorem Comment.pattern_append {reading : Reading} (h : Comment.pattern text = some reading)
    (more : Text) :
    text = reading.text ++ reading.rest ∧
      Comment.pattern (text ++ more) = some { reading with rest := reading.rest ++ more } := by
  unfold Comment.pattern at h
  split at h
  · next inside =>
      obtain ⟨⟨body, rest⟩, hbody, rfl⟩ := Option.map_eq_some_iff.mp h
      obtain ⟨rfl, hlocal⟩ := Comment.body?_local hbody
      refine ⟨by simp [Reading.text], ?_⟩
      simp [Comment.pattern, hlocal]
  · contradiction

/-- A text in which an at-rule goes on. -/
abbrev Unended (text : Text) : Prop :=
  ∀ c ∈ text, (c ≠ ';' && c ≠ '{') = true

theorem unended_of_all (h : (text.all fun c => c ≠ ';' && c ≠ '{') = true) : Unended text :=
  List.all_eq_true.mp h

theorem unended_iff {text : Text} : Unended text ↔ ';' ∉ text ∧ '{' ∉ text := by
  constructor
  · intro h
    exact ⟨Text.not_mem_of_forall h (by decide), Text.not_mem_of_forall h (by decide)⟩
  · rintro ⟨hsemicolon, hopening⟩ c hc
    have hsemicolon : c ≠ ';' := ne_of_mem_of_not_mem hc hsemicolon
    have hopening : c ≠ '{' := ne_of_mem_of_not_mem hc hopening
    simp [hsemicolon, hopening]

/-- A text up to the first mark that can end an at-rule or open its block. -/
theorem exists_unended (text : Text) : ∃ front, Unended front ∧
    (text = front ∨ (∃ rest, text = front ++ ';' :: rest) ∨
      ∃ opened, text = front ++ '{' :: opened) := by
  refine ⟨text.takeWhile fun c => c ≠ ';' && c ≠ '{', fun c => List.mem_takeWhile_imp, ?_⟩
  cases hdrop : text.dropWhile fun c => c ≠ ';' && c ≠ '{' with
  | nil =>
      have htext := Text.eq_takeWhile_append hdrop
      exact .inl (htext.trans (List.append_nil _))
  | cons c rest =>
      have htext := Text.eq_takeWhile_append hdrop
      have hc := Text.not_of_dropWhile_eq_cons hdrop
      by_cases hsemicolon : c = ';'
      · exact .inr (.inl ⟨rest, hsemicolon ▸ htext⟩)
      · have hbrace : c = '{' := by simpa [hsemicolon] using hc
        exact .inr (.inr ⟨rest, hbrace ▸ htext⟩)

theorem atRule?_unended (hfront : Unended front) : atRule? front = none := by
  have hdrop : front.dropWhile (fun c => c ≠ ';' && c ≠ '{') = [] :=
    List.dropWhile_eq_nil_iff.mpr hfront
  simp only [atRule?, hdrop]

theorem atRule?_statement (hfront : Unended front) (rest : Text) :
    atRule? (front ++ ';' :: rest) = some (front ++ [';'], rest) := by
  rw [atRule?, Text.takeWhile_append_cons hfront (by decide),
    Text.dropWhile_append_cons hfront (by decide)]
  rfl

theorem atRule?_block (hfront : Unended front) (opened : Text) :
    atRule? (front ++ '{' :: opened) = (interior? opened).map fun (interior, rest) =>
      (front ++ '{' :: interior ++ ['}'], rest) := by
  rw [atRule?, Text.takeWhile_append_cons hfront (by decide),
    Text.dropWhile_append_cons hfront (by decide)]
  rfl

/-- An at-rule ends at its first semicolon, or at its block if that opens before. -/
theorem atRule?_eq_some_iff {piece : Text} :
    atRule? text = some (piece, rest) ↔
      ∃ front, Unended front ∧
        ((text = front ++ ';' :: rest ∧ piece = front ++ [';']) ∨
          ∃ opened interior, text = front ++ '{' :: opened ∧
            interior? opened = some (interior, rest) ∧ piece = front ++ '{' :: interior ++ ['}']) := by
  constructor
  · intro h
    obtain ⟨front, hfront, rfl | ⟨after, rfl⟩ | ⟨opened, rfl⟩⟩ := exists_unended text
    · rw [atRule?_unended hfront] at h
      contradiction
    · rw [atRule?_statement hfront] at h
      obtain ⟨rfl, rfl⟩ := Prod.mk.inj (Option.some.inj h)
      exact ⟨front, hfront, .inl ⟨rfl, rfl⟩⟩
    · rw [atRule?_block hfront] at h
      obtain ⟨⟨interior, _⟩, hinterior, hpair⟩ := Option.map_eq_some_iff.mp h
      obtain ⟨rfl, rfl⟩ := Prod.mk.inj hpair
      exact ⟨front, hfront, .inr ⟨opened, interior, rfl, hinterior, rfl⟩⟩
  · rintro ⟨front, hfront, ⟨rfl, rfl⟩ | ⟨opened, interior, rfl, hinterior, rfl⟩⟩
    · exact atRule?_statement hfront rest
    · rw [atRule?_block hfront, hinterior]
      rfl

theorem atRule?_eq_append {piece : Text} (h : atRule? text = some (piece, rest)) :
    text = piece ++ rest := by
  obtain ⟨front, -, ⟨rfl, rfl⟩ | ⟨opened, interior, rfl, hinterior, rfl⟩⟩ :=
    atRule?_eq_some_iff.mp h
  · simp
  · simp [interior?_eq_append hinterior]

theorem atRule?_append {piece : Text} (h : atRule? text = some (piece, rest)) (more : Text) :
    atRule? (text ++ more) = some (piece, rest ++ more) := by
  rw [atRule?_eq_some_iff] at h ⊢
  obtain ⟨front, hfront, ⟨rfl, rfl⟩ | ⟨opened, interior, rfl, hinterior, rfl⟩⟩ := h
  · exact ⟨front, hfront, .inl ⟨by simp, rfl⟩⟩
  · exact ⟨front, hfront, .inr ⟨opened ++ more, interior, by simp,
      interior?_append hinterior more, rfl⟩⟩

namespace StyleRule

theorem move_blank {c : Char} (hc : isBlank c = true) : move (c :: text) = .pass 1 := by
  unfold move
  split
  · next heq =>
      obtain rfl := (List.cons.inj heq).1
      exact absurd hc (by decide)
  · next heq =>
      obtain rfl := (List.cons.inj heq).1
      exact absurd hc (by decide)
  · next heq =>
      obtain rfl := (List.cons.inj heq).1
      simp [hc]
  · contradiction

theorem move_readRule {c : Char} (hblank : isBlank c = false) (hat : c ≠ '@')
    (hcomment : c = '/' → text.head? ≠ some '*') : move (c :: text) = readRule (c :: text) := by
  unfold move
  split
  · next heq =>
      obtain ⟨rfl, rfl⟩ := List.cons.inj heq
      simp at hcomment
  · next heq => exact absurd (List.cons.inj heq).1 hat
  · next heq =>
      obtain rfl := (List.cons.inj heq).1
      simp [hblank]
  · contradiction

theorem readRule_append (h : readRule text ≠ .stop) :
    (readRule text).length ≤ text.length ∧
      ∀ more, readRule (text ++ more) = readRule text := by
  unfold readRule at h ⊢
  cases hcut : text.cut? '{' with
  | none => simp [hcut] at h
  | some cut =>
      obtain ⟨front, opened⟩ := cut
      obtain ⟨rfl, hfront⟩ := Text.cut?_eq_some_iff.mp hcut
      have hmore : ∀ more, Text.cut? '{' (front ++ '{' :: opened ++ more) =
          some (front, opened ++ more) := by
        intro more
        rw [List.append_assoc, List.cons_append, Text.cut?_append_cons hfront]
      simp only [hcut, hmore] at h ⊢
      by_cases hempty : front.trim.isEmpty = true
      · simp [hempty, Move.length]
      · cases hinterior : interior? opened with
        | none => simp [hempty, hinterior] at h
        | some block =>
            obtain ⟨interior, rest⟩ := block
            refine ⟨?_, fun more => by simp [hempty, interior?_append hinterior more]⟩
            simp only [hempty, Move.length, interior?_eq_append hinterior, List.length_append,
              List.length_cons, Bool.false_eq_true, if_false]
            omega

theorem move_comment (inside : Text) : move ('/' :: '*' :: inside) =
    passOver ((Comment.pattern ('/' :: '*' :: inside)).map fun reading =>
      (reading.text, reading.rest)) :=
  rfl

theorem move_atRule (rest : Text) : move ('@' :: rest) = passOver (atRule? ('@' :: rest)) :=
  rfl

theorem move_comment_append {inside : Text} (hgoes : move ('/' :: '*' :: inside) ≠ .stop) :
    (move ('/' :: '*' :: inside)).length ≤ ('/' :: '*' :: inside).length ∧
      ∀ more, move ('/' :: '*' :: inside ++ more) = move ('/' :: '*' :: inside) := by
  rw [move_comment] at hgoes ⊢
  cases hpattern : Comment.pattern ('/' :: '*' :: inside) with
  | none => simp [hpattern, passOver] at hgoes
  | some reading =>
      refine ⟨?_, fun more => ?_⟩
      · rw [(Comment.pattern_append hpattern []).1]
        simp [passOver, Move.length]
      · have hmore := (Comment.pattern_append hpattern more).2
        rw [List.cons_append, List.cons_append] at hmore ⊢
        rw [move_comment, hmore]
        rfl

theorem move_atRule_append {rest : Text} (hgoes : move ('@' :: rest) ≠ .stop) :
    (move ('@' :: rest)).length ≤ ('@' :: rest).length ∧
      ∀ more, move ('@' :: rest ++ more) = move ('@' :: rest) := by
  rw [move_atRule] at hgoes ⊢
  cases hrule : atRule? ('@' :: rest) with
  | none => simp [hrule, passOver] at hgoes
  | some cut =>
      obtain ⟨piece, ahead⟩ := cut
      refine ⟨?_, fun more => ?_⟩
      · rw [atRule?_eq_append hrule]
        simp [passOver, Move.length]
      · have hmore := atRule?_append hrule more
        rw [List.cons_append] at hmore ⊢
        rw [move_atRule, hmore]
        rfl

theorem readRule_slash : readRule ['/'] = .stop := by
  decide

theorem steady_move : Steady id move := by
  apply Steady.of_append
  intro text hgoes
  cases text with
  | nil => exact absurd rfl hgoes
  | cons c text =>
      by_cases hat : c = '@'
      · subst hat
        exact move_atRule_append hgoes
      by_cases hblank : isBlank c = true
      · rw [move_blank hblank]
        exact ⟨by simp [Move.length], fun more => move_blank hblank⟩
      rw [Bool.not_eq_true] at hblank
      by_cases hcomment : c = '/' → text.head? ≠ some '*'
      · rw [move_readRule hblank hat hcomment] at hgoes ⊢
        obtain ⟨hlength, hmore⟩ := readRule_append hgoes
        refine ⟨hlength, fun more => ?_⟩
        -- A slash that ends the text might begin a comment later, but it does not begin a rule.
        have hnot : c = '/' → (text ++ more).head? ≠ some '*' := by
          rintro rfl
          cases text with
          | nil => exact absurd readRule_slash hgoes
          | cons d text => exact hcomment rfl
        rw [← hmore more]
        exact move_readRule hblank hat hnot
      · simp only [Classical.not_imp, not_not] at hcomment
        obtain ⟨rfl, hhead⟩ := hcomment
        obtain ⟨inside, rfl⟩ := List.head?_eq_some_iff.mp hhead
        exact move_comment_append hgoes

end StyleRule

end Stylesheet
