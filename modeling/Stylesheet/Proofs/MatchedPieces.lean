import Mathlib.Data.List.Basic
import Mathlib.Data.Option.Basic
import Stylesheet.Declaration
import Stylesheet.Proofs.Trimming
import Stylesheet.Proofs.Walks

/-!
# Matching piece by piece

Matching looks for a declaration at every place of a block, and whatever it finds ends with the next
semicolon. So it finds at most one declaration in each piece up to a semicolon, the first that is named
there, and none behind the last semicolon.
-/

namespace Stylesheet

namespace Text

variable {mark w : Char}

theorem after?_append_mark (hmark : mark ≠ w) (front rest : Text) :
    after? (front ++ mark :: rest) [w] = (after? front [w]).map (· ++ mark :: rest) := by
  cases front with
  | nil => exact if_neg hmark
  | cons d front =>
      rw [List.cons_append, after?, after?, after?, after?]
      split <;> rfl

/-- Induction along the pieces between the marks of a text. -/
theorem pieces_induction {P : Text → Prop} (mark : Char) (hlast : ∀ text, mark ∉ text → P text)
    (hpiece : ∀ front rest, mark ∉ front → P rest → P (front ++ mark :: rest)) (text : Text) :
    P text := by
  induction hlength : text.length using Nat.strong_induction_on generalizing text with
  | _ length ih =>
      by_cases hmem : mark ∈ text
      · obtain ⟨front, rest, rfl, hfront⟩ := List.eq_append_cons_of_mem hmem
        have hshorter : rest.length < length := by
          rw [← hlength, List.length_append, List.length_cons]
          omega
        exact hpiece front rest hfront (ih rest.length hshorter rest rfl)
      · exact hlast text hmem

end Text

namespace Declaration

/-- The declaration `property: value` that a piece consists of. -/
def namedAt? (piece : Text) : Option Declaration := do
  let property := piece.takeWhile isNameChar
  guard (!property.isEmpty)
  let value ← Text.after? ((piece.dropWhile isNameChar).dropWhile isBlank) [':']
  some ⟨property, value.trim⟩

/-- The first declaration that is named in a piece. Its value goes on to the end of the piece. -/
def named? (piece : Text) : Option Declaration :=
  piece.tails.findSome? namedAt?

variable {declaration : Declaration} {text body front rest name lead piece : Text} {c : Char}

theorem named?_cons (c : Char) (piece : Text) :
    named? (c :: piece) = (namedAt? (c :: piece)).or (named? piece) := by
  rw [named?, List.tails, List.findSome?_cons]
  cases namedAt? (c :: piece) <;> rfl

theorem namedAt?_eq_none (hc : isNameChar c = false) (piece : Text) :
    namedAt? (c :: piece) = none := by
  rw [namedAt?, List.takeWhile_cons_of_neg (by simp [hc])]
  rfl

/-- What lies before the first declaration does not matter. -/
theorem named?_append (h : ∀ passed ahead, lead = passed ++ ahead → ahead ≠ [] →
    namedAt? (ahead ++ piece) = none) : named? (lead ++ piece) = named? piece := by
  induction lead with
  | nil => rfl
  | cons c lead ih =>
      have hfirst : namedAt? (c :: (lead ++ piece)) = none :=
        h [] (c :: lead) rfl (List.cons_ne_nil c lead)
      rw [List.cons_append, named?_cons, hfirst, Option.none_or]
      exact ih fun passed ahead hsplit => h (c :: passed) ahead (congrArg (c :: ·) hsplit)

theorem named?_append_of_forall (h : ∀ c ∈ lead, isNameChar c = false) (piece : Text) :
    named? (lead ++ piece) = named? piece := by
  refine named?_append fun passed ahead hsplit hne => ?_
  obtain ⟨c, ahead, rfl⟩ := List.exists_cons_of_ne_nil hne
  have hmem : c ∈ lead := hsplit ▸ List.mem_append_right passed List.mem_cons_self
  exact namedAt?_eq_none (h c hmem) (ahead ++ piece)

theorem named?_append_colon (hname : ∀ c ∈ name, isNameChar c = true) (hne : name ≠ [])
    (value : Text) : named? (name ++ ':' :: value) = some ⟨name, value.trim⟩ := by
  have hcolon : isNameChar ':' = false := by decide
  have hat : namedAt? (name ++ ':' :: value) = some ⟨name, value.trim⟩ := by
    rw [namedAt?, Text.takeWhile_append_cons hname hcolon, Text.dropWhile_append_cons hname hcolon,
      List.dropWhile_cons_of_neg (by decide)]
    simp [hne, Text.after?]
  obtain ⟨c, name, rfl⟩ := List.exists_cons_of_ne_nil hne
  rw [List.cons_append] at hat ⊢
  rw [named?_cons, hat, Option.some_or]

/-! ### What is found -/

theorem exists_of_read? (h : read? text = some (declaration, rest)) :
    ∃ value, declaration = ⟨text.takeWhile isNameChar, Text.trim value⟩ ∧
      text.takeWhile isNameChar ≠ [] ∧ ';' ∉ value ∧ value ++ ';' :: rest <:+ text := by
  simp only [read?, Option.bind_eq_bind, Option.bind_eq_some_iff, Option.guard_eq_some',
    Text.after?_eq_some_iff, Text.cut?_eq_some_iff, Option.some.injEq, Prod.exists, Prod.mk.injEq,
    Bool.not_eq_true', List.isEmpty_eq_false_iff, exists_const] at h
  obtain ⟨hne, ahead, hahead, value, rest, ⟨rfl, hsemicolon⟩, rfl, rfl⟩ := h
  have hsuffix : [':'] ++ (value ++ ';' :: rest) <:+ text := by
    rw [← hahead]
    exact (List.dropWhile_suffix _).trans (List.dropWhile_suffix _)
  exact ⟨value, rfl, hne, hsemicolon, (List.suffix_append [':'] _).trans hsuffix⟩

/-- What matching finds has a name, and its value ends with a semicolon of the block. -/
theorem exists_of_mem_matching (h : declaration ∈ matching body) :
    ∃ value, declaration.property ≠ [] ∧ (∀ c ∈ declaration.property, isNameChar c = true) ∧
      declaration.value = Text.trim value ∧ ';' ∉ value ∧ value ++ [';'] <:+: body := by
  obtain ⟨passed, ahead, length, rfl, hmove⟩ := mem_scanContents h
  rw [move] at hmove
  split at hmove
  · contradiction
  · next found rest hread =>
      obtain ⟨rfl, -⟩ := Move.take.inj hmove
      obtain ⟨value, rfl, hne, hsemicolon, hvalue⟩ := exists_of_read? hread
      refine ⟨value, hne, fun c => List.mem_takeWhile_imp, rfl, hsemicolon, ?_⟩
      have hpiece : value ++ [';'] <:+: value ++ ';' :: rest := ⟨[], rest, by simp⟩
      exact (hpiece.trans hvalue.isInfix).trans (List.suffix_append _ _).isInfix

/-! ### One piece of a block -/

theorem read?_append_cons (h : ';' ∉ front) (rest : Text) :
    read? (front ++ ';' :: rest) = (namedAt? front).map fun declaration => (declaration, rest) := by
  rw [read?, namedAt?, Text.takeWhile_append_mark (by decide), Text.dropWhile_append_mark (by decide),
    Text.dropWhile_append_mark (by decide), Text.after?_append_mark (by decide)]
  cases hname : (front.takeWhile isNameChar).isEmpty with
  | true => rfl
  | false =>
      cases hvalue : Text.after? ((front.dropWhile isNameChar).dropWhile isBlank) [':'] with
      | none => rfl
      | some value =>
          have hsuffix : [':'] ++ value <:+ front := by
            rw [← Text.after?_eq_some_iff.mp hvalue]
            exact (List.dropWhile_suffix _).trans (List.dropWhile_suffix _)
          have hsemicolon : ';' ∉ value := fun hmem =>
            h (hsuffix.subset (List.mem_append_right [':'] hmem))
          simp [Text.cut?_append_cons hsemicolon]

theorem move_append_cons (h : ';' ∉ front) (rest : Text) :
    move (front ++ ';' :: rest) = match namedAt? front with
      | none => .pass 1
      | some declaration => .take declaration (front ++ [';']).length := by
  rw [move, read?_append_cons h]
  cases namedAt? front with
  | none => rfl
  | some declaration =>
      have hlength : (front ++ ';' :: rest).length - rest.length = (front ++ [';']).length := by
        simp only [List.length_append, List.length_cons, List.length_nil]
        omega
      simp only [Option.map_some, hlength]

/-- **One piece.** Up to a semicolon the first named declaration is found and nothing else. -/
theorem matching_append_cons (h : ';' ∉ front) (rest : Text) :
    matching (front ++ ';' :: rest) = (named? front).toList ++ matching rest := by
  induction front with
  | nil =>
      have hpass : move ([';'] ++ rest) = .pass [';'].length := move_append_cons h rest
      exact scanContents_pass (List.cons_ne_nil _ _) hpass
  | cons c front ih =>
      have hmove := move_append_cons h rest
      rw [named?_cons]
      cases hnamed : namedAt? (c :: front) with
      | none =>
          rw [hnamed] at hmove
          have hpass : move ([c] ++ (front ++ ';' :: rest)) = .pass [c].length := hmove
          rw [List.mem_cons, not_or] at h
          rw [Option.none_or, ← ih h.2]
          exact scanContents_pass (List.cons_ne_nil _ _) hpass
      | some declaration =>
          rw [hnamed] at hmove
          have htext : c :: front ++ ';' :: rest = c :: front ++ [';'] ++ rest := by simp
          rw [htext] at hmove ⊢
          exact scanContents_take (by simp) hmove

theorem matching_of_not_mem (h : ';' ∉ body) : matching body = [] := by
  apply List.eq_nil_iff_forall_not_mem.mpr
  intro declaration hmem
  obtain ⟨value, -, -, -, -, hvalue⟩ := exists_of_mem_matching hmem
  exact h (hvalue.subset (List.mem_append_right value List.mem_cons_self))

/-! ### White space at the ends of a block -/

theorem not_isNameChar_of_isSpace (h : isSpace c = true) : isNameChar c = false := by
  rw [Bool.eq_false_iff]
  intro hname
  simp only [isNameChar, Bool.or_eq_true, decide_eq_true_eq] at hname
  rcases hname with halpha | rfl
  · have hspace : isSpace c = false := not_isSpace_of_isAlphanum (by simp [Char.isAlphanum, halpha])
    exact Bool.false_ne_true (hspace.symm.trans h)
  · exact absurd h (by decide)

theorem named?_append_blank (h : Blank lead) (piece : Text) : named? (lead ++ piece) = named? piece :=
  named?_append_of_forall
    (fun c hc => not_isNameChar_of_isSpace (Text.space_of_blank h c hc)) piece

theorem matching_trimStart (body : Text) : matching body.trimStart = matching body := by
  have hpass : Passes move (body.takeWhile isSpace) := by
    refine .of_forall fun c hc rest => ?_
    have hname : (c :: rest).takeWhile isNameChar = [] :=
      List.takeWhile_cons_of_neg (by simp [not_isNameChar_of_isSpace (List.mem_takeWhile_imp hc)])
    rw [move, read?, hname]
    rfl
  have hcontents := hpass.scanContents_append body.trimStart
  rw [Text.trimStart, List.takeWhile_append_dropWhile] at hcontents
  exact hcontents.symm

theorem matching_trimEnd (body : Text) : matching body.trimEnd = matching body := by
  induction body using Text.pieces_induction ';' with
  | hlast body hbody =>
      have htrim : ';' ∉ body.trimEnd := fun hmem =>
        hbody (List.mem_reverse.mp ((List.dropWhile_suffix _).subset (List.mem_reverse.mp hmem)))
      rw [matching_of_not_mem hbody, matching_of_not_mem htrim]
  | hpiece front rest hfront ih =>
      rw [Text.trimEnd_append_cons (by decide), matching_append_cons hfront,
        matching_append_cons hfront, ih]

/-- White space at the two ends of a block makes no difference to what is found in it. -/
theorem matching_trim (body : Text) : matching body.trim = matching body := by
  rw [Text.trim, matching_trimEnd, matching_trimStart]

end Declaration

end Stylesheet
