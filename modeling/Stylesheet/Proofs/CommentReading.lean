import Mathlib.Data.List.Basic
import Stylesheet.Proofs.BalancedText
import Stylesheet.Proofs.StyleRuleLemmas
import Stylesheet.Proofs.Walks

/-!
# Reading written comments

Comments are read back in front of the element they were written for, as long as no other comment
stands right before them.
-/

namespace Stylesheet

namespace Text

theorem unlines_append {lines : List Text} (h : lines ≠ []) :
    unlines lines ++ ['\n'] = lines.flatMap (· ++ ['\n']) := by
  induction lines with
  | nil => exact absurd rfl h
  | cons line lines ih =>
      cases lines with
      | nil => simp [unlines]
      | cons next lines =>
          have hrest := ih (List.cons_ne_nil _ _)
          rw [List.flatMap_cons, ← hrest]
          simp [unlines, List.intercalate_cons_cons]

theorem pieces_concat {mark c : Char} (hc : c ≠ mark) (text : Text) :
    ∃ others piece, pieces mark text = others ++ [piece] ∧
      pieces mark (text ++ [c]) = others ++ [piece ++ [c]] := by
  induction text with
  | nil => exact ⟨[], [], rfl, by rw [List.nil_append, pieces, if_neg hc]; rfl⟩
  | cons d text ih =>
      obtain ⟨others, piece, htext, hconcat⟩ := ih
      rw [List.cons_append, pieces, pieces, htext, hconcat]
      by_cases hd : d = mark
      · rw [if_pos hd, if_pos hd]
        exact ⟨[] :: others, piece, rfl, rfl⟩
      · rw [if_neg hd, if_neg hd]
        cases others with
        | nil => exact ⟨[], d :: piece, rfl, rfl⟩
        | cons first others => exact ⟨(d :: first) :: others, piece, rfl, rfl⟩

end Text

namespace Comment

theorem normalize_pad (body : Text) : normalize (' ' :: body ++ [' ']) = normalize body := by
  have hblank : ' ' ≠ '\n' := by decide
  obtain ⟨piece, others, hbody, hcons⟩ := Text.pieces_cons hblank (body ++ [' '])
  obtain ⟨others', piece', hlast, hconcat⟩ := Text.pieces_concat hblank body
  have hfront : Text.trim (' ' :: piece) = Text.trim piece := by
    have hpad := Text.trim_pad blank_space (List.forall_mem_nil _) piece
    rwa [List.append_nil] at hpad
  have hback : Text.trim (piece' ++ [' ']) = Text.trim piece' :=
    Text.trim_pad (List.forall_mem_nil _) blank_space piece'
  have hlines : (Text.lines (' ' :: body ++ [' '])).map Text.trim = (Text.lines body).map Text.trim := by
    calc
      (Text.lines (' ' :: body ++ [' '])).map Text.trim = ((' ' :: piece) :: others).map Text.trim :=
        congrArg (List.map Text.trim) hcons
      _ = (piece :: others).map Text.trim := by rw [List.map_cons, List.map_cons, hfront]
      _ = (others' ++ [piece' ++ [' ']]).map Text.trim := by rw [← hbody, hconcat]
      _ = (others' ++ [piece']).map Text.trim := by
        rw [List.map_append, List.map_append, List.map_singleton, List.map_singleton, hback]
      _ = (Text.lines body).map Text.trim := by rw [← hlast]; rfl
  rw [normalize, hlines, normalize]

theorem body?_append {body : Text} (h : ¬['*', '/'] <:+: body) (rest : Text) :
    body? (body ++ '*' :: '/' :: rest) = some (body, rest) := by
  induction body with
  | nil => rfl
  | cons c body ih =>
      have hnext : c = '*' → (body ++ '*' :: '/' :: rest).head? ≠ some '/' :=
        not_pair_next h (by simp)
      rw [List.cons_append, body?, ih (not_pair_tail h)]
      · rfl
      · rintro text rfl heq
        rw [heq] at hnext
        exact hnext rfl rfl

theorem not_closer_pad {body : Text} (h : ¬['*', '/'] <:+: body) :
    ¬['*', '/'] <:+: ' ' :: body ++ [' '] := by
  have hback : ¬['*', '/'] <:+: body ++ [' '] :=
    not_pair_append_cons h (by decide) (not_pair_of_not_mem (by decide))
  have hfront : '*' ∉ [' '] := by decide
  have hpadded := not_pair_append_left hfront hback
  exact hpadded

theorem not_opener_pad {body : Text} (h : ¬['/', '*'] <:+: body) :
    ¬['/', '*'] <:+: ' ' :: body ++ [' '] := by
  have hback : ¬['/', '*'] <:+: body ++ [' '] :=
    not_pair_append_cons h (by decide) (not_pair_of_not_mem (by decide))
  have hfront : '/' ∉ [' '] := by decide
  have hpadded := not_pair_append_left hfront hback
  exact hpadded

/-- A comment as it is written before an element. -/
def written (body : Text) : Text :=
  block body ++ ['\n']

theorem Canonical.at_not_mem_written {body : Text} (h : Comment.Canonical body) :
    '@' ∉ written body := by
  simpa [written, block] using h.at_sign

theorem written_reverse (body : Text) : (written body).reverse =
    '\n' :: '/' :: '*' :: ((' ' :: body ++ [' ']).reverse ++ ['*', '/']) := by
  simp [written, block]

end Comment

theorem renderComments_eq (comment : Option (List Text)) :
    renderComments comment = (comment.getD []).flatMap Comment.written := by
  cases comment with
  | none => rfl
  | some entries =>
      cases entries with
      | nil => rfl
      | cons entry entries =>
          have hne : (entry :: entries).map Comment.block ≠ [] := List.cons_ne_nil _ _
          rw [renderComments, Text.unlines_append hne, List.flatMap_map]
          · rfl
          · exact List.cons_ne_nil _ _

theorem forall_mem_getD {P : Text → Prop} {comment : Option (List Text)}
    (h : ∀ entries ∈ comment, ∀ entry ∈ entries, P entry) : ∀ entry ∈ comment.getD [], P entry := by
  cases comment with
  | none => exact List.forall_mem_nil _
  | some entries => exact h entries rfl

theorem at_not_mem_renderComments {comment : Option (List Text)}
    (h : ∀ entries ∈ comment, ∀ entry ∈ entries, Comment.Canonical entry) :
    '@' ∉ renderComments comment := by
  rw [renderComments_eq]
  intro hmem
  obtain ⟨entry, hentry, hwritten⟩ := List.mem_flatMap.mp hmem
  exact (forall_mem_getD h entry hentry).at_not_mem_written hwritten

namespace Adjacency

variable {adjacency : Adjacency}

theorem readBack_feed (adjacency : Adjacency) (before : Text) :
    adjacency.readBack none ('\n' :: before) = adjacency.readBack none before := by
  have hallows : adjacency.allows '\n' = true := by cases adjacency <;> rfl
  rw [readBack, if_pos hallows]
  rintro rest heq
  exact absurd heq (by decide)

/-- A body that lacks the opener, which is seen from its end, is read up to its opener. -/
theorem readBack_inside {inside : Text} (h : ¬['*', '/'] <:+: inside) (body before : Text) :
    adjacency.readBack (some body) (inside ++ '*' :: '/' :: before) =
      Comment.normalize (inside.reverse ++ body) :: adjacency.readBack none before := by
  induction inside generalizing body with
  | nil => rfl
  | cons c inside ih =>
      have hnext : c = '*' → (inside ++ '*' :: '/' :: before).head? ≠ some '/' :=
        not_pair_next h (by simp)
      rw [List.cons_append, readBack, ih (not_pair_tail h), List.reverse_cons, List.append_assoc,
        List.singleton_append]
      rintro text rfl heq
      rw [heq] at hnext
      exact hnext rfl rfl

theorem readBack_written {body : Text} (hnormal : Comment.normalize body = body)
    (hopener : ¬['/', '*'] <:+: body) (before : Text) :
    adjacency.readBack none ((Comment.written body).reverse ++ before) =
      body :: adjacency.readBack none before := by
  have hpadded : ¬['*', '/'] <:+: (' ' :: body ++ [' ']).reverse := by
    rw [← List.reverse_infix, List.reverse_reverse]
    exact Comment.not_opener_pad hopener
  have htext : (Comment.written body).reverse ++ before =
      '\n' :: '/' :: '*' :: ((' ' :: body ++ [' ']).reverse ++ '*' :: '/' :: before) := by
    rw [Comment.written_reverse]
    simp
  rw [htext, readBack_feed, readBack, readBack_inside hpadded, List.reverse_reverse,
    List.append_nil, Comment.normalize_pad, hnormal]

theorem readBack_flatMap {entries : List Text}
    (hnormal : ∀ entry ∈ entries, Comment.normalize entry = entry)
    (hopener : ∀ entry ∈ entries, ¬['/', '*'] <:+: entry) (before : Text) :
    adjacency.readBack none ((entries.flatMap Comment.written).reverse ++ before) =
      entries.reverse ++ adjacency.readBack none before := by
  induction entries generalizing before with
  | nil => rfl
  | cons entry entries ih =>
      obtain ⟨hentry, hentries⟩ := List.forall_mem_cons.mp hnormal
      obtain ⟨hbody, hbodies⟩ := List.forall_mem_cons.mp hopener
      rw [List.flatMap_cons, List.reverse_append, List.append_assoc, ih hentries hbodies,
        readBack_written hentry hbody, List.reverse_cons, List.append_assoc,
        List.singleton_append]

/-- No comment stands right before a place. -/
def Bare (adjacency : Adjacency) (before : Text) : Prop :=
  adjacency.readBack none before = []

theorem bare_nil (adjacency : Adjacency) : adjacency.Bare [] :=
  rfl

theorem bare_cons {c : Char} (hc : isBlank c = false) (hslash : c ≠ '/') (before : Text) :
    adjacency.Bare (c :: before) := by
  have hallows : adjacency.allows c = false := by cases adjacency <;> simp [allows, hc]
  rw [Bare, readBack, if_neg (by simp [hallows])]
  exact fun rest heq => absurd heq hslash

theorem Bare.feeds {before : Text} (h : adjacency.Bare before) (count : Nat) :
    adjacency.Bare (List.replicate count '\n' ++ before) := by
  induction count with
  | zero => exact h
  | succ count ih => exact (readBack_feed adjacency _).trans ih

/-- The comments written before an element are the ones attached to it. -/
theorem attached_renderComments {comment : Option (List Text)} {before : Text}
    (hne : comment ≠ some []) (h : ∀ entries ∈ comment, ∀ entry ∈ entries, Comment.Canonical entry)
    (hbefore : adjacency.Bare before) :
    adjacency.attached ((renderComments comment).reverse ++ before) = comment := by
  have hentries : ∀ entry ∈ comment.getD [], Comment.Canonical entry := forall_mem_getD h
  have hread : adjacency.readBack none ((renderComments comment).reverse ++ before) =
      (comment.getD []).reverse := by
    rw [renderComments_eq, readBack_flatMap (fun entry hentry => (hentries entry hentry).normalized)
      (fun entry hentry => (hentries entry hentry).opener), hbefore, List.append_nil]
  rw [attached, hread]
  cases comment with
  | none => rfl
  | some entries =>
      obtain ⟨nearest, others, hreverse⟩ :=
        List.exists_cons_of_ne_nil (mt List.reverse_eq_nil_iff.mp fun hnil => hne (congrArg some hnil))
      rw [Option.getD_some, hreverse]
      change some (nearest :: others).reverse = some entries
      rw [← hreverse, List.reverse_reverse]

end Adjacency

end Stylesheet
