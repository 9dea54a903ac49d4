import Stylesheet.Token
import Stylesheet.Proofs.CheckedText
import Stylesheet.Proofs.ClosingBraces

/-!
# Checked search for closing braces

The tokens of a text and the closing brace of a block, slice by slice. From any start, be it beyond
the end of the text or inside a character, the search does not misuse the text and finds the brace
that balances the braces from there on.
-/

namespace Stylesheet.Checked

variable {text front ahead rest : Text} {offset fuel : Nat}

/-- Moves on by a number of bytes. -/
def bump (text : Text) (offset length : Nat) : Checked Nat := do
  let _ ← sliceFrom text (offset + length)
  return offset + length

/-- The kind of the token at an offset, and the offset behind it. -/
def tokenAt (text : Text) (offset : Nat) : Checked (Option (Token.Kind × Nat)) := do
  match ← sliceFrom text offset with
  | [] => return none
  | '{' :: _ => return some (.opening, ← bump text offset 1)
  | '}' :: _ => return some (.closing, ← bump text offset 1)
  | '/' :: '*' :: _ =>
      let remainder ← sliceFrom text (offset + 2)
      match find? "*/".toList remainder with
      | some stop => return some (.comment, ← bump text (offset + 2) (stop + 2))
      | none => return some (.openComment, ← bump text (offset + 2) remainder.byteSize)
  | '/' :: _ => return some (.slash, ← bump text offset 1)
  | ahead =>
      let run : Text := ahead.takeWhile (!Token.isDelimiter ·)
      return some (.text, ← bump text offset run.byteSize)

/-- Follows the tokens from an offset on until no brace is open. -/
def closeFrom (text : Text) : (fuel : Nat) → (depth : Int) → (offset : Nat) → Checked (Option Nat)
  | 0, _, _ => .error .stalled
  | fuel + 1, depth, offset => do
      match ← tokenAt text offset with
      | none => return none
      | some (.opening, next) => closeFrom text fuel (depth + 1) next
      | some (.closing, next) =>
          if depth = 1 then return some offset else closeFrom text fuel (depth - 1) next
      | some (.openComment, _) => return none
      | some (_, next) => closeFrom text fuel depth next

/-- Only a start at which the text can be cut has a closing brace. -/
def closingBrace (text : Text) (start : Nat) : Checked (Option Nat) := do
  match text.splitAtByte start with
  | none => return none
  | some (_, rest) => return (← closeFrom rest (rest.byteSize + 1) 0 0).map (start + ·)

/-- What the first token of a text means for the braces in it. -/
def afterToken (token : Token) (rest : Text) (depth : Int) : Option (Text × Text) :=
  let behind := fun cut : Text × Text => (token.lexeme ++ cut.1, cut.2)
  match token.kind with
  | .opening => (balance false (depth + 1) rest).map behind
  | .closing => if depth = 1 then some ([], rest) else (balance false (depth - 1) rest).map behind
  | .openComment => none
  | _ => (balance false depth rest).map behind

theorem isDelimiter_eq_false_iff {c : Char} :
    Token.isDelimiter c = false ↔ c ≠ '{' ∧ c ≠ '}' ∧ c ≠ '/' := by
  simp only [Token.isDelimiter, Bool.or_eq_false_iff, decide_eq_false_iff_not, and_assoc, ne_eq]

theorem balance_run {run : Text} (hrun : ∀ c ∈ run, (!Token.isDelimiter c) = true) (depth : Int)
    (rest : Text) :
    balance false depth (run ++ rest) =
      (balance false depth rest).map fun (inner, after) => (run ++ inner, after) := by
  induction run with
  | nil =>
      rw [List.nil_append]
      cases balance false depth rest <;> rfl
  | cons c run ih =>
      obtain ⟨hc, hrest⟩ := List.forall_mem_cons.mp hrun
      rw [Bool.not_eq_true', isDelimiter_eq_false_iff] at hc
      obtain ⟨hopening, hclosing, hslash⟩ := hc
      rw [List.cons_append, balance_plain hopening hclosing fun h => absurd h hslash, ih hrest,
        Option.map_map]
      rfl

theorem bump_of_eq {piece : Text} (htext : text = front ++ (piece ++ rest))
    {length : Nat} (hoffset : offset = front.byteSize) (hlength : length = piece.byteSize) :
    bump text offset length = .ok (Text.byteSize (front ++ piece)) := by
  have hstop : offset + length = Text.byteSize (front ++ piece) := by
    rw [Text.byteSize_append, hoffset, hlength]
  have hslice : sliceFrom text (offset + length) = .ok rest :=
    sliceFrom_of_eq (by rw [htext, List.append_assoc]) hstop
  rw [bump, hslice, hstop]
  rfl

/-- A token stands at the front of what lies ahead, as it is read and as the braces see it. -/
structure Fronts (text front ahead : Text) (token : Token) (rest : Text) : Prop where
  first : Token.first? ahead = some token
  ahead_eq : ahead = token.lexeme ++ rest
  progress : token.lexeme ≠ []
  read : tokenAt text front.byteSize = .ok (some (token.kind, Text.byteSize (front ++ token.lexeme)))
  braces : ∀ depth, balance false depth ahead = afterToken token rest depth

theorem bump_one {c : Char} (htext : text = front ++ c :: rest) (hsize : c.utf8Size = 1) :
    bump text front.byteSize 1 = .ok (Text.byteSize (front ++ [c])) := by
  have hpiece : text = front ++ ([c] ++ rest) := htext
  exact bump_of_eq hpiece rfl (by rw [Text.byteSize, hsize]; rfl)

theorem fronts_opening (htext : text = front ++ '{' :: rest) :
    Fronts text front ('{' :: rest) ⟨.opening, ['{']⟩ rest where
  first := rfl
  ahead_eq := rfl
  progress := List.cons_ne_nil _ _
  read := by
    rw [tokenAt, sliceFrom_of_eq htext rfl]
    change (bump text front.byteSize 1 >>= fun _ => _) = _
    rw [bump_one htext rfl]
    rfl
  braces depth := by
    rw [balance_opening]
    rfl

theorem fronts_closing (htext : text = front ++ '}' :: rest) :
    Fronts text front ('}' :: rest) ⟨.closing, ['}']⟩ rest where
  first := rfl
  ahead_eq := rfl
  progress := List.cons_ne_nil _ _
  read := by
    rw [tokenAt, sliceFrom_of_eq htext rfl]
    change (bump text front.byteSize 1 >>= fun _ => _) = _
    rw [bump_one htext rfl]
    rfl
  braces depth := by
    rw [balance]
    rfl

theorem sliceFrom_opener {inside : Text} (htext : text = front ++ '/' :: '*' :: inside) :
    sliceFrom text (front.byteSize + 2) = .ok inside := by
  have hsplit : text = (front ++ ['/', '*']) ++ inside := by
    rw [htext, List.append_assoc]
    rfl
  refine sliceFrom_of_eq hsplit ?_
  rw [Text.byteSize_append]
  rfl

theorem tokenAt_opener {inside : Text} (htext : text = front ++ '/' :: '*' :: inside) :
    tokenAt text front.byteSize =
      match find? "*/".toList inside with
      | some stop => (bump text (front.byteSize + 2) (stop + 2)).map fun next =>
          some (.comment, next)
      | none => (bump text (front.byteSize + 2) (Text.byteSize inside)).map fun next =>
          some (.openComment, next) := by
  rw [tokenAt, sliceFrom_of_eq htext rfl]
  change (sliceFrom text (front.byteSize + 2) >>= fun _ => _) = _
  rw [sliceFrom_opener htext]
  simp only [bind, Except.bind]
  cases find? "*/".toList inside <;> rfl

theorem fronts_comment {body : Text}
    (hbody : Comment.body? (body ++ '*' :: '/' :: rest) = some (body, rest))
    (htext : text = front ++ '/' :: '*' :: (body ++ '*' :: '/' :: rest)) :
    Fronts text front ('/' :: '*' :: (body ++ '*' :: '/' :: rest))
      ⟨.comment, '/' :: '*' :: body ++ ['*', '/']⟩ rest where
  first := by simp [Token.first?, hbody]
  ahead_eq := by simp
  progress := List.cons_ne_nil _ _
  read := by
    have hsplit : text = (front ++ ['/', '*']) ++ ((body ++ ['*', '/']) ++ rest) := by
      simp [htext]
    have hbump : bump text (front.byteSize + 2) (Text.byteSize body + 2) =
        .ok (Text.byteSize ((front ++ ['/', '*']) ++ (body ++ ['*', '/']))) :=
      bump_of_eq hsplit (by rw [Text.byteSize_append]; rfl) (by rw [Text.byteSize_append]; rfl)
    rw [tokenAt_opener htext, find?_closer, hbody]
    change (bump text (front.byteSize + 2) (Text.byteSize body + 2)).map _ = _
    rw [hbump]
    simp [Except.map]
  braces depth := by
    rw [balance, balance_comment, hbody]
    simp only [Option.bind_some, Option.map_map]
    rw [afterToken]
    congr 1
    funext cut
    simp

theorem fronts_openComment {inside : Text} (hbody : Comment.body? inside = none)
    (htext : text = front ++ '/' :: '*' :: inside) :
    Fronts text front ('/' :: '*' :: inside) ⟨.openComment, '/' :: '*' :: inside⟩ [] where
  first := by simp [Token.first?, hbody]
  ahead_eq := (List.append_nil _).symm
  progress := List.cons_ne_nil _ _
  read := by
    have hsplit : text = (front ++ ['/', '*']) ++ (inside ++ []) := by simp [htext]
    have hbump : bump text (front.byteSize + 2) (Text.byteSize inside) =
        .ok (Text.byteSize ((front ++ ['/', '*']) ++ inside)) :=
      bump_of_eq hsplit (by rw [Text.byteSize_append]; rfl) rfl
    rw [tokenAt_opener htext, find?_closer, hbody]
    change (bump text (front.byteSize + 2) (Text.byteSize inside)).map _ = _
    rw [hbump]
    simp [Except.map]
  braces depth := by
    rw [balance, balance_comment, hbody]
    rfl

theorem fronts_slash (hstar : rest.head? ≠ some '*') (htext : text = front ++ '/' :: rest) :
    Fronts text front ('/' :: rest) ⟨.slash, ['/']⟩ rest where
  first := by
    rw [Token.first?]
    rintro inside rfl
    exact hstar rfl
  ahead_eq := rfl
  progress := List.cons_ne_nil _ _
  read := by
    rw [tokenAt, sliceFrom_of_eq htext rfl]
    simp only [bind, Except.bind]
    split
    case h_5 heq =>
      rw [bump_one htext rfl]
      rfl
    all_goals simp_all
  braces depth := by
    rw [balance_plain (by decide) (by decide) fun _ => hstar]
    rfl

theorem fronts_text {c : Char} (hc : Token.isDelimiter c = false)
    (htext : text = front ++ c :: rest) :
    Fronts text front (c :: rest) ⟨.text, (c :: rest).takeWhile (!Token.isDelimiter ·)⟩
      ((c :: rest).dropWhile (!Token.isDelimiter ·)) := by
  obtain ⟨hopening, hclosing, hslash⟩ := isDelimiter_eq_false_iff.mp hc
  have hsplit : c :: rest = (c :: rest).takeWhile (!Token.isDelimiter ·) ++
      (c :: rest).dropWhile (!Token.isDelimiter ·) := List.takeWhile_append_dropWhile.symm
  refine ⟨?_, hsplit, ?_, ?_, fun depth => ?_⟩
  · clear hsplit
    rw [Token.first?]
    all_goals simp_all
  · rw [List.takeWhile_cons_of_pos (by simp [hc])]
    exact List.cons_ne_nil _ _
  · have hbump : bump text front.byteSize
        (Text.byteSize ((c :: rest).takeWhile (!Token.isDelimiter ·))) =
        .ok (Text.byteSize (front ++ (c :: rest).takeWhile (!Token.isDelimiter ·))) :=
      bump_of_eq (htext.trans (congrArg (front ++ ·) hsplit)) rfl rfl
    rw [tokenAt, sliceFrom_of_eq htext rfl]
    simp only [bind, Except.bind]
    split
    case h_6 =>
      rw [hbump]
      rfl
    all_goals
      clear hsplit hbump
      simp_all
  · have hchars : ∀ d ∈ (c :: rest).takeWhile (!Token.isDelimiter ·),
        (!Token.isDelimiter d) = true := fun d => List.mem_takeWhile_imp
    have hrun := balance_run hchars depth ((c :: rest).dropWhile (!Token.isDelimiter ·))
    rw [← hsplit] at hrun
    exact hrun

theorem exists_token (htext : text = front ++ ahead) (hahead : ahead ≠ []) :
    ∃ token rest, Fronts text front ahead token rest := by
  obtain ⟨c, ahead, rfl⟩ := List.exists_cons_of_ne_nil hahead
  by_cases hopening : c = '{'
  · subst hopening
    exact ⟨_, _, fronts_opening htext⟩
  by_cases hclosing : c = '}'
  · subst hclosing
    exact ⟨_, _, fronts_closing htext⟩
  by_cases hslash : c = '/'
  · subst hslash
    by_cases hstar : ahead.head? = some '*'
    · obtain ⟨inside, rfl⟩ := List.head?_eq_some_iff.mp hstar
      cases hbody : Comment.body? inside with
      | none => exact ⟨_, _, fronts_openComment hbody htext⟩
      | some cut =>
          obtain ⟨body, rest⟩ := cut
          obtain rfl := (Comment.body?_local hbody).1
          exact ⟨_, _, fronts_comment hbody htext⟩
    · exact ⟨_, _, fronts_slash hstar htext⟩
  · have hc : Token.isDelimiter c = false :=
      isDelimiter_eq_false_iff.mpr ⟨hopening, hclosing, hslash⟩
    exact ⟨_, _, fronts_text hc htext⟩

theorem closeFrom_eq {depth : Int} (htext : text = front ++ ahead) (hfuel : ahead.length < fuel) :
    closeFrom text fuel depth front.byteSize =
      .ok ((balance false depth ahead).map fun (inner, _) => front.byteSize + inner.byteSize) := by
  induction fuel generalizing front ahead depth with
  | zero => exact absurd hfuel (Nat.not_lt_zero _)
  | succ fuel ih =>
      by_cases hahead : ahead = []
      · subst hahead
        rw [closeFrom, tokenAt, sliceFrom_of_eq htext rfl]
        rfl
      · obtain ⟨token, rest, h⟩ := exists_token htext hahead
        have hlength : rest.length < fuel := by
          have hpositive := List.length_pos_iff.mpr h.progress
          have hsplit := congrArg List.length h.ahead_eq
          rw [List.length_append] at hsplit
          omega
        have hnext : ∀ depth, closeFrom text fuel depth (Text.byteSize (front ++ token.lexeme)) =
            .ok (((balance false depth rest).map fun cut => (token.lexeme ++ cut.1, cut.2)).map
              fun (inner, _) => front.byteSize + inner.byteSize) := by
          intro depth
          have htoken : text = front ++ token.lexeme ++ rest := by
            rw [htext, h.ahead_eq, List.append_assoc]
          rw [ih htoken hlength, Option.map_map]
          congr 2
          funext cut
          simp only [Function.comp_apply, Text.byteSize_append, Nat.add_assoc]
        rw [closeFrom, h.read, h.braces, afterToken]
        cases hkind : token.kind with
        | opening => exact hnext (depth + 1)
        | closing =>
            by_cases hdepth : depth = 1
            · simp only [hdepth, if_true]
              rfl
            · simp only [hdepth, if_false]
              exact hnext (depth - 1)
        | openComment => rfl
        | text => exact hnext depth
        | slash => exact hnext depth
        | comment => exact hnext depth

theorem closingBrace_eq (text : Text) (start : Nat) :
    closingBrace text start = .ok (closingBrace? text start) := by
  rw [closingBrace, closingBrace?]
  cases text.splitAtByte start with
  | none => rfl
  | some cut =>
      obtain ⟨front, rest⟩ := cut
      have hfuel : rest.length < rest.byteSize + 1 := by
        have hlength := Text.length_le_byteSize rest
        omega
      have hclose : closeFrom rest (rest.byteSize + 1) 0 0 =
          .ok ((balance false 0 rest).map fun (inner, _) => Text.byteSize [] + inner.byteSize) := by
        have hrest : rest = [] ++ rest := rfl
        exact closeFrom_eq hrest hfuel
      simp only [hclose, bind, Except.bind, pure, Except.pure, Option.map_map, Option.bind_some]
      cases balance false 0 rest with
      | none => rfl
      | some cut => simp [Text.byteSize]

/-- At an opening brace the closing brace is that of its block. -/
theorem closingBrace_brace {opened : Text} (htext : text = front ++ '{' :: opened)
    (hoffset : offset = front.byteSize) :
    closingBrace text offset =
      .ok ((interior? opened).map fun (interior, _) => offset + Text.byteSize ('{' :: interior)) := by
  rw [closingBrace_eq, htext, hoffset, closingBrace?_brace]

/-- Between an opening brace and its closing brace stands the interior. -/
theorem slice_interior {interior : Text} (htext : text = front ++ '{' :: (interior ++ '}' :: rest))
    (hoffset : offset = front.byteSize) :
    slice text (offset + 1) (offset + Text.byteSize ('{' :: interior)) = .ok interior := by
  have hinside : text = (front ++ ['{']) ++ (interior ++ '}' :: rest) := by
    rw [htext, List.append_assoc, List.singleton_append]
  refine slice_eq_ok_iff.mpr ⟨_, _, hinside, ?_, ?_⟩
  · rw [hoffset, Text.byteSize_append]
    rfl
  · simp only [hoffset, Text.byteSize_append, Text.byteSize_opening, Text.byteSize_nil]
    omega

end Stylesheet.Checked
