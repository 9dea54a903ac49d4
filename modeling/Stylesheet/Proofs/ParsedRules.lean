import Mathlib.Data.List.Basic
import Stylesheet.Proofs.AttachedComments
import Stylesheet.Proofs.DeclarationReading

/-!
# Parsed style rules

Whatever the text, the selector and the declarations of a style rule come out trimmed and without the
marks at which they were cut.
-/

namespace Stylesheet

namespace Declaration

variable {declaration : Declaration} {body segment piece : Text}

theorem removeFrom_sublist (pattern : Pattern) (skip : Nat) (text : Text) :
    List.Sublist (removeFrom pattern skip text) text := by
  fun_induction removeFrom pattern skip text with
  | case1 => exact List.Sublist.refl _
  | case2 skip c text ih => exact ih.cons c
  | case3 c text _ ih => exact ih.cons_cons c
  | case4 c text reading _ ih => exact ih.cons c

theorem stripComments_subset (text : Text) : stripComments text ⊆ text :=
  (removeFrom_sublist Comment.inlinePattern 0 text).subset

theorem ofPiece?_eq_some_iff : ofPiece? piece = some declaration ↔
    ∃ front back : Text, piece = front ++ ':' :: back ∧ ':' ∉ front ∧
      declaration = ⟨front.trim, back.trim⟩ := by
  constructor
  · intro h
    obtain ⟨⟨front, back⟩, hcut, rfl⟩ := Option.map_eq_some_iff.mp h
    obtain ⟨hpiece, hcolon⟩ := Text.cut?_eq_some_iff.mp hcut
    exact ⟨front, back, hpiece, hcolon, rfl⟩
  · rintro ⟨front, back, rfl, hcolon, rfl⟩
    rw [ofPiece?, Text.cut?_append_cons hcolon]
    rfl

theorem lacks_of_mem_segments (h : segment ∈ segments body) :
    ';' ∉ segment ∧ segment <:+: body := by
  obtain ⟨hmem, -⟩ := List.mem_filter.mp h
  obtain ⟨piece, hpiece, rfl⟩ := List.mem_map.mp hmem
  exact ⟨Text.not_mem_trim (Text.not_mem_of_mem_pieces piece hpiece),
    (Text.trim_isInfix piece).trans (Text.infix_of_mem_pieces hpiece)⟩

theorem exists_of_mem_splitStripped (h : declaration ∈ splitStripped body) :
    ∃ segment ∈ segments body, ofPiece? (stripComments segment).trim = some declaration := by
  obtain ⟨segment, hsegment, hpiece⟩ := List.mem_filterMap.mp h
  refine ⟨segment, hsegment, ?_⟩
  dsimp only at hpiece
  split at hpiece
  · contradiction
  · exact hpiece

theorem mem_of_ofPiece? {c : Char} (h : ofPiece? piece = some declaration)
    (hc : c ∈ declaration.piece) : c ∈ piece ∨ c = ' ' := by
  obtain ⟨front, back, rfl, -, rfl⟩ := ofPiece?_eq_some_iff.mp h
  rw [Declaration.piece, List.mem_append, List.mem_append] at hc
  rcases hc with (hc | hc) | hc
  · exact .inl (List.mem_append_left _ ((Text.trim_isInfix front).subset hc))
  · rcases List.mem_pair.mp hc with rfl | rfl
    · exact .inl (List.mem_append_right _ List.mem_cons_self)
    · exact .inr rfl
  · exact .inl (List.mem_append_right _ (List.mem_cons_of_mem _ ((Text.trim_isInfix back).subset hc)))

theorem mem_of_mem_splitStripped {c : Char} (h : declaration ∈ splitStripped body)
    (hc : c ∈ declaration.piece) : (c ∈ body ∧ c ≠ ';') ∨ c = ' ' := by
  obtain ⟨segment, hsegment, hpiece⟩ := exists_of_mem_splitStripped h
  obtain ⟨hmark, hbody⟩ := lacks_of_mem_segments hsegment
  refine (mem_of_ofPiece? hpiece hc).imp_left fun hmem => ?_
  have hstripped : c ∈ segment := stripComments_subset segment ((Text.trim_isInfix _).subset hmem)
  exact ⟨hbody.subset hstripped, ne_of_mem_of_not_mem hstripped hmark⟩

/-- A declaration that was cut out of a block is cut out again, unless a comment comes about in it. -/
theorem separable_of_mem_splitStripped (h : declaration ∈ splitStripped body)
    (hcomments : stripComments declaration.piece.trim = declaration.piece.trim) :
    declaration.Separable := by
  have hsemicolon : ';' ∉ declaration.piece := by
    intro hmem
    rcases mem_of_mem_splitStripped h hmem with ⟨-, hne⟩ | heq
    · exact hne rfl
    · exact absurd heq (by decide)
  obtain ⟨segment, -, hpiece⟩ := exists_of_mem_splitStripped h
  obtain ⟨front, back, -, hcolon, rfl⟩ := ofPiece?_eq_some_iff.mp hpiece
  exact {
    property_trimmed := Text.trim_trim front
    value_trimmed := Text.trim_trim back
    colon := Text.not_mem_trim hcolon
    semicolon := hsemicolon
    comments := hcomments }

/-- In a block without comments nothing is stripped, and the declarations are pieces of it. -/
theorem canonical_of_mem_splitStripped (h : declaration ∈ splitStripped body) (hat : '@' ∉ body)
    (hopening : '{' ∉ body) (hclosing : '}' ∉ body) (hcomment : ¬['/', '*'] <:+: body) :
    declaration.Canonical := by
  obtain ⟨segment, hsegment, hpiece⟩ := exists_of_mem_splitStripped h
  obtain ⟨hmark, hbody⟩ := lacks_of_mem_segments hsegment
  have hplain : Plain segment := {
    at_sign := fun hmem => hat (hbody.subset hmem)
    opening := fun hmem => hopening (hbody.subset hmem)
    closing := fun hmem => hclosing (hbody.subset hmem)
    semicolon := hmark
    comment := fun hpair => hcomment (hpair.trans hbody) }
  rw [stripComments_eq hplain.comment] at hpiece
  obtain ⟨front, back, htrim, hcolon, rfl⟩ := ofPiece?_eq_some_iff.mp hpiece
  have hcut : Plain (front ++ ':' :: back) := hplain.of_isInfix (htrim ▸ Text.trim_isInfix segment)
  have hfront : front <:+: front ++ ':' :: back := (List.prefix_append front _).isInfix
  have hback : back <:+: front ++ ':' :: back := ⟨front ++ [':'], [], by simp⟩
  exact {
    property_trimmed := Text.trim_trim front
    value_trimmed := Text.trim_trim back
    property_plain := hcut.of_isInfix ((Text.trim_isInfix front).trans hfront)
    value_plain := hcut.of_isInfix ((Text.trim_isInfix back).trans hback)
    colon := Text.not_mem_trim hcolon }

end Declaration

namespace StyleRule

variable {text : Text} {rule : Rule} {length : Nat}

theorem readRule_of_move (h : move text = .take rule length) : readRule text = .take rule length := by
  have hpass : ∀ piece, passOver piece ≠ .take rule length := by
    rintro (_ | _) heq <;> cases heq
  unfold move at h
  split at h
  · exact absurd h (hpass _)
  · exact absurd h (hpass _)
  · split at h
    · cases h
    · exact h
  · cases h

theorem exists_of_readRule (h : readRule text = .take rule length) :
    ∃ front opened interior rest, text = front ++ '{' :: opened ∧ '{' ∉ front ∧
      Text.trim front ≠ [] ∧ interior? opened = some (interior, rest) ∧
      rule = ⟨Text.trim front, Declaration.splitStripped interior⟩ := by
  unfold readRule at h
  split at h
  · cases h
  · next front opened hcut =>
      obtain ⟨rfl, hopening⟩ := Text.cut?_eq_some_iff.mp hcut
      split at h
      · cases h
      · next hne =>
          split at h
          · cases h
          · next interior rest hinterior =>
              obtain ⟨rfl, -⟩ := Move.take.inj h
              exact ⟨front, opened, interior, rest, rfl, hopening, by simpa using hne, hinterior, rfl⟩

/-- A record of a text, with the pieces of the text that it was read from. -/
theorem exists_of_mem_records {record : Record Rule} (h : record ∈ records text) :
    ∃ passed front opened interior rest, text = passed ++ (front ++ '{' :: opened) ∧ '{' ∉ front ∧
      Text.trim front ≠ [] ∧ interior? opened = some (interior, rest) ∧
      record.comment = Adjacency.strict.attached passed.reverse ∧
      record.content = ⟨Text.trim front, Declaration.splitStripped interior⟩ := by
  obtain ⟨site, hsite, rfl⟩ := List.mem_map.mp h
  obtain ⟨passed, ahead, length, htext, hbefore, hmove⟩ := mem_scan hsite
  obtain ⟨front, opened, interior, rest, rfl, hopening, hne, hinterior, hrule⟩ :=
    exists_of_readRule (readRule_of_move hmove)
  refine ⟨passed, front, opened, interior, rest, htext, hopening, hne, hinterior, ?_, hrule⟩
  rw [← hbefore]
  rfl

end StyleRule

end Stylesheet
