import Stylesheet.Proofs.CheckedBraces
import Stylesheet.Proofs.CheckedComments

/-!
# Checked scan for style rules

The scan for style rules as a loop over byte offsets. It is never misused, and it finds the style
rules of the text.
-/

namespace Stylesheet.Checked

variable {source front ahead : Text} {fuel : Nat}

/-! ### At-rules -/

/-- The offset behind the at-rule that begins at an offset. -/
def skipAtRule (source : Text) (offset : Nat) : Checked (Option Nat) := do
  let ahead ← sliceFrom source offset
  let brace := find? ['{'] ahead
  match (find? [';'] ahead).filter fun semicolon => brace.all (semicolon < ·) with
  | some semicolon => return some (offset + semicolon + 1)
  | none =>
      match brace with
      | some opening => return (← closingBrace source (offset + opening)).map (· + 1)
      | none => return none

/-- Behind another character a mark is not the first. -/
theorem exists_find?_mark {mark c : Char} {run : Text} (hrun : mark ∉ run) (hc : c ≠ mark)
    (text : Text) :
    find? [mark] (run ++ c :: text) = none ∨
      ∃ offset, find? [mark] (run ++ c :: text) = some offset ∧ run.byteSize < offset := by
  have hmore : find? [mark] (c :: text) = (find? [mark] text).map (Text.byteSize [c] + ·) :=
    find?_mark_append (List.not_mem_cons_of_ne_of_not_mem hc.symm List.not_mem_nil) text
  rw [find?_mark_append hrun, hmore]
  cases find? [mark] text with
  | none => exact .inl rfl
  | some offset =>
      have hsize : 0 < c.utf8Size := c.utf8Size_pos
      refine .inr ⟨run.byteSize + (Text.byteSize [c] + offset), rfl, ?_⟩
      rw [Text.byteSize]
      omega

theorem skipAtRule_eq (htext : source = front ++ ahead) :
    skipAtRule source front.byteSize =
      .ok ((atRule? ahead).map fun (piece, _) => Text.byteSize (front ++ piece)) := by
  have hfirst : ∀ {mark : Char} {run : Text}, mark ∉ run → ∀ rest,
      find? [mark] (run ++ mark :: rest) = some run.byteSize := by
    intro mark run hrun rest
    rw [find?_mark_append hrun, find?_mark_cons]
    rfl
  rw [skipAtRule, sliceFrom_of_eq htext rfl]
  simp only [bind, Except.bind]
  obtain ⟨run, hrun, rfl | ⟨rest, rfl⟩ | ⟨opened, rfl⟩⟩ := exists_unended ahead
  all_goals obtain ⟨hsemicolon, hbrace⟩ := unended_iff.mp hrun
  · rw [find?_mark_of_not_mem hsemicolon, find?_mark_of_not_mem hbrace, atRule?_unended hrun]
    rfl
  · have hlater : (find? ['{'] (run ++ ';' :: rest)).all (run.byteSize < ·) = true := by
      rcases exists_find?_mark hbrace (by decide : ';' ≠ '{') rest with hnone | ⟨offset, hsome, hlt⟩
      · rw [hnone]
        rfl
      · rw [hsome]
        exact decide_eq_true hlt
    have hsize : Text.byteSize (front ++ (run ++ [';'])) = front.byteSize + run.byteSize + 1 := by
      rw [Text.byteSize_append, Text.byteSize_append, Nat.add_assoc]
      rfl
    rw [hfirst hsemicolon, Option.filter_some, if_pos hlater, atRule?_statement hrun,
      Option.map_some, hsize]
    rfl
  · have hnone : (find? [';'] (run ++ '{' :: opened)).filter
        (fun semicolon => (some run.byteSize).all (semicolon < ·)) = none := by
      rcases exists_find?_mark hsemicolon (by decide : '{' ≠ ';') opened with
        hnone | ⟨offset, hsome, hlt⟩
      · rw [hnone]
        rfl
      · rw [hsome, Option.filter_some]
        exact if_neg fun hbefore => Nat.lt_asymm hlt (of_decide_eq_true hbefore)
    have hsplit : source = (front ++ run) ++ '{' :: opened := by
      rw [htext, List.append_assoc]
    have hopening := closingBrace_brace hsplit (Text.byteSize_append front run).symm
    rw [hfirst hbrace, hnone, atRule?_block hrun]
    simp only [hopening, pure, Except.pure, Option.map_map]
    congr 2
    funext ⟨interior, _⟩
    have hsize : Text.byteSize ('{' :: interior ++ ['}']) = Text.byteSize ('{' :: interior) + 1 :=
      Text.byteSize_append _ _
    simp only [Function.comp_apply, List.append_assoc, Text.byteSize_append, hsize, Nat.add_assoc]

/-! ### Rules -/

/-- Moves on over blank bytes. -/
def skipSpace (source : Text) : (fuel offset : Nat) → Checked Nat
  | 0, _ => .error .stalled
  | fuel + 1, offset => do
      if source.byteSize ≤ offset then return offset
      else if Text.isBlankByte (← byteAt source offset) then skipSpace source fuel (offset + 1)
      else return offset

/-- Reads the rule at an offset. -/
def ruleAt (source : Text) (offset : Nat) : Checked (Step (Record Rule)) := do
  match find? ['{'] (← sliceFrom source offset) with
  | none => return .done
  | some length =>
      let opening := offset + length
      let selector := (← slice source offset opening).trim
      if selector.isEmpty then return .next (opening + 1)
      else
        match ← closingBrace source opening with
        | none => return .done
        | some close =>
            let interior ← slice source (opening + 1) close
            let rule : Rule := ⟨selector, Declaration.splitStripped interior⟩
            return .found (← recordAt source offset .strict rule) (close + 1)

/-- Passes over the comment that begins at an offset. -/
def commentAt (source : Text) (offset : Nat) : Checked (Step (Record Rule)) := do
  match find? "*/".toList (← sliceFrom source (offset + 2)) with
  | some stop => return .next (offset + 2 + stop + 2)
  | none => return .done

/-- Passes over the at-rule that begins at an offset. -/
def atRuleAt (source : Text) (offset : Nat) : Checked (Step (Record Rule)) := do
  match ← skipAtRule source offset with
  | some next => return .next next
  | none => return .done

/-- Reads what stands at an offset, which is no blank. -/
def elementAt (source : Text) (offset : Nat) : Checked (Step (Record Rule)) := do
  if source.byteSize ≤ offset then return .done
  else if (Text.utf8 "/*".toList).isPrefixOf (← byteSlice source offset source.byteSize) then
    commentAt source offset
  else if (← byteAt source offset) = '@'.toUInt8 then atRuleAt source offset
  else ruleAt source offset

def styleStep (source : Text) (cursor : Nat) : Checked (Step (Record Rule)) := do
  elementAt source (← skipSpace source (source.byteSize + 1) cursor)

/-- The style rules of a text, with the comments before them. -/
def styleRecords (source : Text) : Checked (List (Record Rule)) :=
  loop (styleStep source) (source.byteSize + 1) 0

theorem skipSpace_eq (htext : source = front ++ ahead) (hfuel : ahead.length < fuel) :
    skipSpace source fuel front.byteSize =
      .ok (Text.byteSize (front ++ ahead.takeWhile isBlank)) := by
  induction ahead generalizing front fuel with
  | nil =>
      obtain ⟨fuel, rfl⟩ := Nat.exists_eq_succ_of_ne_zero (Nat.ne_of_gt hfuel)
      have hend : source.byteSize ≤ front.byteSize := by
        rw [htext, List.append_nil]
      rw [skipSpace, if_pos hend, List.takeWhile_nil, List.append_nil]
      rfl
  | cons c ahead ih =>
      obtain ⟨fuel, rfl⟩ := Nat.exists_eq_succ_of_ne_zero (Nat.ne_of_gt (Nat.zero_lt_of_lt hfuel))
      obtain ⟨b, hb, hbyte⟩ := exists_byteAt htext rfl
      have hnotEnd : ¬source.byteSize ≤ front.byteSize := by
        rw [htext]
        exact Nat.not_le_of_lt (Text.byteSize_lt_append_cons front c _)
      rw [skipSpace, if_neg hnotEnd, hbyte]
      simp only [bind, Except.bind, Text.isBlankByte_eq hb]
      by_cases hblank : isBlank c = true
      · have hnext : front.byteSize + 1 = Text.byteSize (front ++ [c]) := by
          rw [Text.byteSize_append, Text.byteSize, utf8Size_of_isBlank hblank]
          rfl
        have hsplit : source = front ++ [c] ++ ahead := by rw [htext, List.append_assoc]; rfl
        rw [if_pos hblank, hnext, ih hsplit (Nat.lt_of_succ_lt_succ hfuel),
          List.takeWhile_cons_of_pos hblank, List.append_assoc]
        rfl
      · rw [if_neg hblank, List.takeWhile_cons_of_neg hblank, List.append_nil]
        rfl

/-- Reading a rule does what one move of the scan does. -/
theorem ruleAt_follows (htext : source = front ++ ahead)
    (hmove : StyleRule.move ahead = StyleRule.readRule ahead) :
    ∃ made, ruleAt source front.byteSize = .ok made ∧
      Follows StyleRule.move (Site.record .strict) front ahead made := by
  rw [ruleAt, sliceFrom_of_eq htext rfl]
  simp only [bind, Except.bind, find?_mark]
  cases hcut : ahead.cut? '{' with
  | none =>
      refine ⟨.done, rfl, .of_stop fun _ => ?_⟩
      rw [hmove, StyleRule.readRule, hcut]
  | some cut =>
      obtain ⟨run, opened⟩ := cut
      obtain ⟨rfl, hrun⟩ := Text.cut?_eq_some_iff.mp hcut
      have hselector : slice source front.byteSize (front.byteSize + run.byteSize) = .ok run :=
        slice_eq_ok_iff.mpr ⟨front, '{' :: opened, htext, rfl, rfl⟩
      have hsplit : source = (front ++ run) ++ '{' :: opened := by
        rw [htext, List.append_assoc]
      have hopening := closingBrace_brace hsplit (Text.byteSize_append front run).symm
      rw [StyleRule.readRule, hcut] at hmove
      simp only [Option.map_some, hselector, hopening]
      by_cases hempty : run.trim.isEmpty = true
      · have hpiece : run ++ '{' :: opened = (run ++ ['{']) ++ opened := by simp
        simp only [hempty, if_true] at hmove ⊢
        rw [hpiece] at hmove ⊢
        refine ⟨_, rfl, .of_pass (by simp) ?_ ?_⟩
        · simp only [Text.byteSize_append, Nat.add_assoc]
          rfl
        · rw [hmove, List.length_append, List.length_singleton]
      · simp only [hempty] at hmove ⊢
        cases hinterior : interior? opened with
        | none =>
            refine ⟨.done, rfl, .of_stop fun _ => ?_⟩
            simp only [hinterior] at hmove
            exact hmove
        | some block =>
            obtain ⟨interior, rest⟩ := block
            obtain rfl := interior?_eq_append hinterior
            have hpiece : run ++ '{' :: (interior ++ '}' :: rest) =
                (run ++ '{' :: interior ++ ['}']) ++ rest := by simp
            have hinner := slice_interior hsplit (Text.byteSize_append front run).symm
            simp only [hinterior, Option.map_some, hinner, recordAt_eq htext rfl] at hmove ⊢
            rw [hpiece] at hmove ⊢
            refine ⟨_, rfl, .of_take (by simp) ?_ ?_⟩
            · simp only [Text.byteSize_append, Text.byteSize_opening, Text.byteSize_closing]
              omega
            · rw [hmove, List.length_append, List.length_append, List.length_cons,
                List.length_singleton]
              rfl

theorem commentAt_follows {inside : Text} (htext : source = front ++ '/' :: '*' :: inside) :
    ∃ made, commentAt source front.byteSize = .ok made ∧
      Follows StyleRule.move (Site.record .strict) front ('/' :: '*' :: inside) made := by
  rw [commentAt, sliceFrom_opener htext]
  simp only [bind, Except.bind, find?_closer]
  cases hbody : Comment.body? inside with
  | none =>
      refine ⟨.done, rfl, .of_stop fun _ => ?_⟩
      rw [StyleRule.move_comment, Comment.pattern, hbody]
      rfl
  | some cut =>
      obtain ⟨body, rest⟩ := cut
      have hmove : StyleRule.move ('/' :: '*' :: inside) =
          .pass ('/' :: '*' :: body ++ ['*', '/']).length := by
        rw [StyleRule.move_comment, Comment.pattern, hbody]
        rfl
      obtain rfl := (Comment.body?_local hbody).1
      have hpiece : '/' :: '*' :: (body ++ '*' :: '/' :: rest) =
          ('/' :: '*' :: body ++ ['*', '/']) ++ rest := by simp
      rw [hpiece] at hmove ⊢
      refine ⟨_, rfl, .of_pass (List.cons_ne_nil _ _) ?_ hmove⟩
      have hsize : Text.byteSize ('/' :: '*' :: body ++ ['*', '/']) = 2 + Text.byteSize body + 2 := by
        have hopener : '/' :: '*' :: body = ['/', '*'] ++ body := rfl
        rw [Text.byteSize_append, hopener, Text.byteSize_append]
        rfl
      rw [Text.byteSize_append, hsize, Nat.add_assoc, Nat.add_assoc, Nat.add_assoc]

theorem atRuleAt_follows {rest : Text} (htext : source = front ++ '@' :: rest) :
    ∃ made, atRuleAt source front.byteSize = .ok made ∧
      Follows StyleRule.move (Site.record .strict) front ('@' :: rest) made := by
  rw [atRuleAt, skipAtRule_eq htext]
  cases hrule : atRule? ('@' :: rest) with
  | none =>
      refine ⟨.done, rfl, .of_stop fun _ => ?_⟩
      rw [StyleRule.move_atRule, hrule]
      rfl
  | some cut =>
      obtain ⟨piece, behind⟩ := cut
      have hmove : StyleRule.move ('@' :: rest) = .pass piece.length := by
        rw [StyleRule.move_atRule, hrule]
        rfl
      have hpiece : piece ≠ [] := by
        rintro rfl
        obtain ⟨front, -, ⟨-, hpiece⟩ | ⟨_, _, -, -, hpiece⟩⟩ := atRule?_eq_some_iff.mp hrule
        · simp at hpiece
        · simp at hpiece
      rw [atRule?_eq_append hrule] at hmove ⊢
      exact ⟨_, rfl, .of_pass hpiece rfl hmove⟩

theorem elementAt_follows (htext : source = front ++ ahead)
    (hblank : ∀ c ∈ ahead.head?, isBlank c = false) :
    ∃ made, elementAt source front.byteSize = .ok made ∧
      Follows StyleRule.move (Site.record .strict) front ahead made := by
  cases ahead with
  | nil =>
      have hend : source.byteSize ≤ front.byteSize := by
        rw [htext, List.append_nil]
      refine ⟨.done, ?_, .of_stop fun hne => absurd rfl hne⟩
      rw [elementAt, if_pos hend]
      rfl
  | cons c rest =>
      have hnotEnd : ¬source.byteSize ≤ front.byteSize := by
        rw [htext]
        exact Nat.not_le_of_lt (Text.byteSize_lt_append_cons front c _)
      have hbytes : byteSlice source front.byteSize source.byteSize = .ok (Text.utf8 (c :: rest)) := by
        have hwhole : source = front ++ ((c :: rest) ++ []) := by rw [htext, List.append_nil]
        refine byteSlice_of_eq hwhole rfl ?_
        rw [htext, Text.byteSize_append]
      have hcomment : (Text.utf8 "/*".toList).isPrefixOf (Text.utf8 (c :: rest)) =
          "/*".toList.isPrefixOf (c :: rest) := by
        rw [Bool.eq_iff_iff, List.isPrefixOf_iff_prefix, List.isPrefixOf_iff_prefix]
        exact Text.utf8_prefix_iff
      obtain ⟨b, hb, hbyte⟩ := exists_byteAt htext rfl
      rw [elementAt, if_neg hnotEnd, hbytes, hbyte]
      simp only [bind, Except.bind, hcomment, Text.byte_eq_iff (by decide : Text.isAscii '@' = true) hb]
      by_cases hopener : "/*".toList.isPrefixOf (c :: rest) = true
      · obtain ⟨inside, hinside⟩ := List.isPrefixOf_iff_prefix.mp hopener
        rw [if_pos hopener]
        rw [← hinside] at htext ⊢
        exact commentAt_follows htext
      · rw [if_neg hopener]
        by_cases hat : c = '@'
        · subst hat
          rw [if_pos rfl]
          exact atRuleAt_follows htext
        · rw [if_neg hat]
          refine ruleAt_follows htext (StyleRule.move_readRule (hblank c rfl) hat ?_)
          rintro rfl hstar
          obtain ⟨inside, rfl⟩ := List.head?_eq_some_iff.mp hstar
          exact hopener rfl

theorem styleStep_follows (htext : source = front ++ ahead) :
    ∃ made, styleStep source front.byteSize = .ok made ∧
      Follows StyleRule.move (Site.record .strict) front ahead made := by
  have hfuel : ahead.length < source.byteSize + 1 := by
    have hlength := Text.length_le_byteSize ahead
    rw [htext, Text.byteSize_append]
    omega
  have hsplit : source = (front ++ ahead.takeWhile isBlank) ++ ahead.dropWhile isBlank := by
    rw [List.append_assoc, List.takeWhile_append_dropWhile, htext]
  have hpasses : Passes StyleRule.move (ahead.takeWhile isBlank) :=
    .of_forall fun c hc rest => StyleRule.move_blank (List.mem_takeWhile_imp hc)
  have hstop : ∀ c ∈ (ahead.dropWhile isBlank).head?, isBlank c = false := by
    intro c hc
    obtain ⟨rest, hrest⟩ := List.head?_eq_some_iff.mp hc
    exact Text.not_of_dropWhile_eq_cons hrest
  obtain ⟨made, hmade, hfollows⟩ := elementAt_follows hsplit hstop
  refine ⟨made, ?_, ?_⟩
  · rw [styleStep, skipSpace_eq htext hfuel]
    exact hmade
  · have hahead := Follows.behind (by rw [hpasses, List.reverse_append]) hfollows
    rwa [List.takeWhile_append_dropWhile] at hahead

/-- The loop finds what the scan finds, and none of its iterations misuses the text. -/
theorem styleRecords_eq (source : Text) : styleRecords source = .ok (StyleRule.records source) :=
  loop_eq_scan fun _ _ => styleStep_follows

end Stylesheet.Checked
