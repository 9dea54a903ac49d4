import Mathlib.Data.List.Basic
import Stylesheet.Proofs.CommentReading

/-!
# Attached comments

The lines of a normalized comment are trimmed, so it is not changed by normalizing it again. What is
attached to a place holds no opener: it is read back only as far as the nearest one.
-/

namespace Stylesheet

namespace Text

theorem unlines_lines (text : Text) : unlines text.lines = text := by
  rw [lines, pieces_eq_splitOn]
  exact List.intercalate_splitOn '\n'

theorem lines_unlines {lines : List Text} (hne : lines ≠ []) (h : ∀ line ∈ lines, '\n' ∉ line) :
    (unlines lines).lines = lines := by
  rw [Text.lines, pieces_eq_splitOn]
  exact List.splitOn_intercalate '\n' h hne

theorem mem_or_eq_of_mem_unlines {c : Char} {lines : List Text} (h : c ∈ unlines lines) :
    (∃ line ∈ lines, c ∈ line) ∨ c = '\n' := by
  cases lines with
  | nil => exact absurd h List.not_mem_nil
  | cons first others =>
      have hmem : c ∈ (first :: others).flatMap (· ++ ['\n']) := by
        rw [← unlines_append (List.cons_ne_nil _ _)]
        exact List.mem_append_left _ h
      obtain ⟨line, hline, hc⟩ := List.mem_flatMap.mp hmem
      rcases List.mem_append.mp hc with hc | hc
      · exact .inl ⟨line, hline, hc⟩
      · exact .inr (List.mem_singleton.mp hc)

theorem not_opener_unlines {lines : List Text} (h : ∀ line ∈ lines, ¬['/', '*'] <:+: line) :
    ¬['/', '*'] <:+: unlines lines := by
  induction lines with
  | nil => exact not_pair_of_not_mem List.not_mem_nil
  | cons first others ih =>
      obtain ⟨hfirst, hothers⟩ := List.forall_mem_cons.mp h
      cases others with
      | nil => simpa [unlines] using hfirst
      | cons second others =>
          have hfeed : '/' ∉ ['\n'] := by decide
          have hrest := not_pair_append_left hfeed (ih hothers)
          rw [unlines, List.intercalate_cons_cons, List.append_assoc]
          exact not_pair_append_cons hfirst (by decide) hrest

theorem Trimmed.last {c : Char} {text : Text} (h : Trimmed (text ++ [c])) : isSpace c = false := by
  rw [Bool.eq_false_iff]
  intro hc
  have hspace : Space [c] := List.forall_mem_singleton.mpr hc
  have htrim : trim text = text ++ [c] := by
    rw [← trim_trimEnd, ← trimEnd_append_of_space hspace, trim_trimEnd, h]
  have hlength := (trim_isInfix text).length_le
  rw [htrim, List.length_append, List.length_singleton] at hlength
  exact Nat.not_succ_le_self _ hlength

/-- A text in which no line begins or ends with white space. -/
def Flush (text : Text) : Prop :=
  ∀ line ∈ text.lines, Trimmed line

namespace Flush

variable {c : Char} {text : Text}

/-- White space at the front of a flush text is a line feed. -/
theorem tail (h : Flush (c :: text)) (hc : isSpace c = true) : Flush text := by
  by_cases hfeed : c = '\n'
  · rw [Flush, lines, pieces, if_pos hfeed] at h
    exact (List.forall_mem_cons.mp h).2
  · obtain ⟨line, others, -, hcons⟩ := pieces_cons hfeed text
    rw [Flush, lines, hcons] at h
    have hline : Trimmed (c :: line) := h _ List.mem_cons_self
    exact absurd hline.head (by simp [hc])

theorem init (h : Flush (text ++ [c])) (hc : isSpace c = true) : Flush text := by
  by_cases hfeed : c = '\n'
  · subst hfeed
    have hlines : lines (text ++ ['\n']) = lines text ++ [[]] := by
      rw [lines, lines, pieces_eq_splitOn, pieces_eq_splitOn]
      exact List.splitOn_append_cons_self text []
    rw [Flush, hlines] at h
    exact (List.forall_mem_append.mp h).1
  · obtain ⟨others, line, -, hconcat⟩ := pieces_concat hfeed text
    rw [Flush, lines, hconcat] at h
    have hline : Trimmed (line ++ [c]) := h _ List.mem_concat_self
    exact absurd hline.last (by simp [hc])

theorem trimStart (h : Flush text) : Flush text.trimStart := by
  induction text with
  | nil => exact h
  | cons c text ih =>
      by_cases hc : isSpace c = true
      · rw [Text.trimStart, List.dropWhile_cons_of_pos hc]
        exact ih (h.tail hc)
      · rwa [Text.trimStart, List.dropWhile_cons_of_neg hc]

theorem trimEnd (h : Flush text) : Flush text.trimEnd := by
  induction text using List.reverseRecOn with
  | nil => exact h
  | append_singleton text c ih =>
      by_cases hc : isSpace c = true
      · rw [trimEnd_append_of_space (List.forall_mem_singleton.mpr hc)]
        exact ih (h.init hc)
      · rw [Bool.not_eq_true] at hc
        rwa [trimEnd_append_cons hc]

theorem trim (h : Flush text) : Flush text.trim :=
  h.trimStart.trimEnd

theorem normalize_eq (h : Flush text) : Comment.normalize text = text.trim := by
  have hlines : text.lines.map Text.trim = text.lines := by
    calc
      text.lines.map Text.trim = text.lines.map id := List.map_congr_left h
      _ = text.lines := List.map_id _
  rw [Comment.normalize, hlines, unlines_lines]

end Flush

end Text

namespace Comment

variable {body : Text}

theorem flush_normalize (body : Text) : Text.Flush (normalize body) := by
  have hne : body.lines.map Text.trim ≠ [] :=
    mt List.map_eq_nil_iff.mp (Text.pieces_ne_nil '\n' body)
  have hfeed : ∀ line ∈ body.lines.map Text.trim, '\n' ∉ line := by
    refine List.forall_mem_map.mpr fun line hline hmem => ?_
    exact Text.not_mem_trim (Text.not_mem_of_mem_pieces line hline) hmem
  have hflush : Text.Flush (Text.unlines (body.lines.map Text.trim)) := by
    rw [Text.Flush, Text.lines_unlines hne hfeed]
    exact List.forall_mem_map.mpr fun line _ => Text.trim_trim line
  exact hflush.trim

theorem normalize_normalize (body : Text) : normalize (normalize body) = normalize body := by
  rw [(flush_normalize body).normalize_eq, normalize, Text.trim_trim]

/-- Normalizing drops characters and adds line feeds. -/
theorem mem_or_eq_of_mem_normalize {c : Char} (h : c ∈ normalize body) : c ∈ body ∨ c = '\n' := by
  have hlines : c ∈ Text.unlines (body.lines.map Text.trim) := (Text.trim_isInfix _).subset h
  rcases Text.mem_or_eq_of_mem_unlines hlines with ⟨line, hline, hmem⟩ | hfeed
  · obtain ⟨piece, hpiece, rfl⟩ := List.mem_map.mp hline
    exact .inl ((Text.infix_of_mem_pieces hpiece).subset ((Text.trim_isInfix piece).subset hmem))
  · exact .inr hfeed

theorem not_opener_normalize (h : ¬['/', '*'] <:+: body) : ¬['/', '*'] <:+: normalize body := by
  have hlines : ∀ line ∈ body.lines.map Text.trim, ¬['/', '*'] <:+: line := by
    refine List.forall_mem_map.mpr fun line hline hpair => h ?_
    exact hpair.trans ((Text.trim_isInfix line).trans (Text.infix_of_mem_pieces hline))
  exact fun hpair => Text.not_opener_unlines hlines (hpair.trans (Text.trim_isInfix _))

theorem canonical_normalize (hat : '@' ∉ body) (hopener : ¬['/', '*'] <:+: body)
    (hcloser : ¬['*', '/'] <:+: normalize body) : Comment.Canonical (normalize body) where
  normalized := normalize_normalize body
  at_sign hmem := by
    rcases mem_or_eq_of_mem_normalize hmem with hmem | hfeed
    · exact hat hmem
    · exact absurd hfeed (by decide)
  opener := not_opener_normalize hopener
  closer := hcloser

end Comment

namespace Adjacency

variable {adjacency : Adjacency} {before entry : Text} {entries : List Text}

/-- No opener was read as part of a body, and none lies across the place that was reached. -/
structure Unopened (body before : Text) : Prop where
  opener : ¬['/', '*'] <:+: body
  border : body.head? = some '*' → before.head? ≠ some '/'

theorem unopened_nil (before : Text) : Unopened [] before :=
  ⟨not_pair_of_not_mem List.not_mem_nil, fun h => nomatch h⟩

theorem Unopened.cons {body : Text} {c : Char} (h : Unopened body (c :: before))
    (hnext : c = '*' → before.head? ≠ some '/') : Unopened (c :: body) before where
  opener := by
    intro hpair
    rcases List.infix_cons_iff.mp hpair with hprefix | hinfix
    · obtain ⟨rfl, rest, rfl⟩ := List.cons_prefix_cons.mp hprefix
      exact h.border rfl rfl
    · exact h.opener hinfix
  border hhead := hnext (Option.some.inj hhead)

theorem forall_unopened_none (before : Text) : ∀ body ∈ (none : Option Text), Unopened body before :=
  fun _ hmem => absurd hmem (Option.not_mem_none _)

theorem forall_unopened_nil (before : Text) : ∀ body ∈ some [], Unopened body before := by
  rintro body ⟨⟩
  exact unopened_nil before

theorem forall_unopened_cons {body : Text} {c : Char} (h : Unopened body (c :: before))
    (hnext : ∀ rest, c = '*' → before = '/' :: rest → False) :
    ∀ longer ∈ some (c :: body), Unopened longer before := by
  rintro longer ⟨⟩
  refine h.cons fun hc hhead => ?_
  obtain ⟨rest, hrest⟩ := List.head?_eq_some_iff.mp hhead
  exact hnext rest hc hrest

/-- A comment is read back as far as the nearest opener, so its body holds none. -/
theorem exists_body_of_mem_readBack {inside : Option Text}
    (hinside : ∀ body ∈ inside, Unopened body before)
    (h : entry ∈ adjacency.readBack inside before) :
    ∃ body, entry = Comment.normalize body ∧ ¬['/', '*'] <:+: body ∧
      body ⊆ inside.getD [] ++ before := by
  fun_induction readBack adjacency inside before with
  | case1 before ih =>
      obtain ⟨body, hentry, hopener, hsubset⟩ := ih (forall_unopened_nil before) h
      have hbefore : before ⊆ '/' :: '*' :: before := List.subset_append_right ['/', '*'] before
      exact ⟨body, hentry, hopener, List.Subset.trans hsubset hbefore⟩
  | case2 c before _ _ ih =>
      obtain ⟨body, hentry, hopener, hsubset⟩ := ih (forall_unopened_none before) h
      exact ⟨body, hentry, hopener, List.Subset.trans hsubset (List.subset_cons_self _ _)⟩
  | case3 => exact absurd h List.not_mem_nil
  | case4 body before ih =>
      rcases List.mem_cons.mp h with rfl | h
      · exact ⟨body, rfl, (hinside body rfl).opener, List.subset_append_left _ _⟩
      · obtain ⟨other, hentry, hopener, hsubset⟩ := ih (forall_unopened_none before) h
        have hbefore : before ⊆ body ++ '*' :: '/' :: before :=
          List.subset_append_of_subset_right _ (List.subset_append_right ['*', '/'] before)
        exact ⟨other, hentry, hopener, List.Subset.trans hsubset hbefore⟩
  | case5 body c before hnext ih =>
      have hlonger := forall_unopened_cons (hinside body rfl) hnext
      obtain ⟨other, hentry, hopener, hsubset⟩ := ih hlonger h
      exact ⟨other, hentry, hopener, List.Subset.trans hsubset List.perm_middle.symm.subset⟩
  | case6 => exact absurd h List.not_mem_nil

theorem readBack_eq_nil (h : ¬['*', '/'] <:+: before) (inside : Option Text) :
    adjacency.readBack inside before = [] := by
  fun_induction readBack adjacency inside before with
  | case1 before ih => exact ih (not_pair_tail (not_pair_tail h))
  | case2 c before _ _ ih => exact ih (not_pair_tail h)
  | case3 => rfl
  | case4 body before _ => exact absurd ⟨[], before, rfl⟩ h
  | case5 body c before _ ih => exact ih (not_pair_tail h)
  | case6 => rfl

theorem readBack_outside {c : Char} {before : Text} (h : c = '/' → before.head? ≠ some '*') :
    adjacency.readBack none (c :: before) =
      if adjacency.allows c then adjacency.readBack none before else [] := by
  rw [readBack]
  rintro rest rfl rfl
  exact h rfl rfl

theorem readBack_within {c : Char} {body before : Text} (h : c = '*' → before.head? ≠ some '/') :
    adjacency.readBack (some body) (c :: before) =
      adjacency.readBack (some (c :: body)) before := by
  rw [readBack]
  rintro rest rfl rfl
  exact h rfl rfl

/-- Without a closer at its end a text ends in no comment. -/
theorem readBack_unclosed {kept : Text} (hlast : ∀ c ∈ kept.getLast?, isBlank c = false)
    (hcloser : ¬['*', '/'] <:+ kept) : adjacency.readBack none kept.reverse = [] := by
  rcases List.eq_nil_or_concat kept with rfl | ⟨front, c, rfl⟩
  · rfl
  · rw [List.concat_eq_append] at hlast hcloser ⊢
    have hblank : isBlank c = false := hlast c (List.getLast?_concat)
    have hallows : adjacency.allows c = false := by
      cases adjacency <;> simp [allows, hblank]
    have hpair : c = '/' → front.reverse.head? ≠ some '*' := by
      rintro rfl hhead
      obtain ⟨others, hothers⟩ := List.head?_eq_some_iff.mp hhead
      refine hcloser ⟨others.reverse, ?_⟩
      rw [← List.reverse_reverse front, hothers]
      simp
    rw [List.reverse_append, List.reverse_singleton, List.singleton_append, readBack_outside hpair,
      hallows]
    rfl

/-- A body without openers is read up to the opener of its comment. -/
theorem readBack_comment {body : Text} (hbody : ¬['/', '*'] <:+: body) (before : Text) :
    adjacency.readBack none ('/' :: '*' :: (body.reverse ++ '*' :: '/' :: before)) =
      Comment.normalize body :: adjacency.readBack none before := by
  have hreverse : ¬['*', '/'] <:+: body.reverse := fun hpart => hbody (List.reverse_infix.mp hpart)
  rw [readBack, readBack_inside hreverse, List.reverse_reverse, List.append_nil]

theorem attached_eq_none (h : ¬['*', '/'] <:+: before) : adjacency.attached before = none := by
  rw [attached, readBack_eq_nil h]

theorem attached_ne_some_nil (adjacency : Adjacency) (before : Text) :
    adjacency.attached before ≠ some [] := by
  unfold attached
  split
  · exact fun h => nomatch h
  · simp

theorem getD_attached (before : Text) :
    (adjacency.attached before).getD [] = (adjacency.readBack none before).reverse := by
  rw [attached]
  cases adjacency.readBack none before <;> rfl

theorem mem_readBack_of_attached (h : adjacency.attached before = some entries)
    (hentry : entry ∈ entries) : entry ∈ adjacency.readBack none before := by
  unfold attached at h
  split at h
  · contradiction
  · next heq =>
      rw [heq, ← List.mem_reverse, Option.some.inj h]
      exact hentry

theorem exists_body_of_attached (h : adjacency.attached before = some entries)
    (hentry : entry ∈ entries) :
    ∃ body, entry = Comment.normalize body ∧ ¬['/', '*'] <:+: body ∧ body ⊆ before :=
  exists_body_of_mem_readBack (forall_unopened_none before) (mem_readBack_of_attached h hentry)

/-- What is attached to a place is canonical but for closers. -/
theorem canonical_of_attached (hat : '@' ∉ before) (h : adjacency.attached before = some entries)
    (hentry : entry ∈ entries) (hcloser : ¬['*', '/'] <:+: entry) : Comment.Canonical entry := by
  obtain ⟨body, rfl, hopener, hsubset⟩ := exists_body_of_attached h hentry
  exact Comment.canonical_normalize (fun hmem => hat (hsubset hmem)) hopener hcloser

end Adjacency

end Stylesheet
