import Mathlib.Order.Bounds.Basic
import Stylesheet.Proofs.BalancedText
import Stylesheet.Proofs.ByteOffsets
import Stylesheet.Proofs.CommentReading

/-!
# Closing braces

The search for a closing brace follows the braces of a text in one pass. What it finds can be said
without following them: it is the first closing brace outside of comments with which as many braces
are closed as were opened, counted from the start of the search.
-/

namespace Stylesheet

/-- Reading `text` from its front, with every comment passed over up to the first closer behind its
opener, one comes to `rest`, and `shown` are the characters that stand outside of the comments before
it. There is no way past a comment that does not end. -/
inductive Shows : (text shown rest : Text) → Prop
  | here (text : Text) : Shows text [] text
  | comment {body text shown rest : Text} (closer : ¬['*', '/'] <:+: body)
      (later : Shows text shown rest) :
      Shows ('/' :: '*' :: (body ++ '*' :: '/' :: text)) shown rest
  | char {c : Char} {text shown rest : Text} (opener : ¬['/', '*'] <+: c :: text)
      (later : Shows text shown rest) : Shows (c :: text) (c :: shown) rest

/-- At the offset `close` stands a closing brace that is read from `start` on outside of comments, and
among the characters shown from `start` through it there are as many closing braces as opening
ones. -/
def Evens (text : Text) (start close : Nat) : Prop :=
  ∃ front inner shown rest, text = front ++ (inner ++ '}' :: rest) ∧ front.byteSize = start ∧
    start + inner.byteSize = close ∧ Shows (inner ++ '}' :: rest) shown ('}' :: rest) ∧
    (shown ++ ['}']).count '{' = (shown ++ ['}']).count '}'

variable {text shown rest inner : Text} {inComment : Bool} {depth : Int} {start close : Nat}

theorem even_iff (shown : Text) :
    (shown ++ ['}']).count '{' = (shown ++ ['}']).count '}' ↔
      shown.count '{' = shown.count '}' + 1 := by
  rw [List.count_append, List.count_append]
  simp

theorem Shows.isSuffix (h : Shows text shown rest) : rest <:+ text := by
  induction h with
  | here text => exact List.suffix_refl text
  | @comment body text shown rest _ _ ih =>
      refine ih.trans ⟨'/' :: '*' :: (body ++ ['*', '/']), ?_⟩
      simp
  | char _ _ ih => exact ih.trans (List.suffix_cons _ _)

/-! ### Comments are passed over -/

theorem balance_comment (depth : Int) (text : Text) :
    balance true depth text = (Comment.body? text).bind fun (body, rest) =>
      (balance false depth rest).map fun (inner, after) => (body ++ '*' :: '/' :: inner, after) := by
  fun_induction Comment.body? text with
  | case1 => rfl
  | case2 text => rfl
  | case3 c text hcloser ih =>
      have hnext : c = '*' → text.head? ≠ some '/' := by
        rintro rfl hhead
        obtain ⟨more, rfl⟩ := List.head?_eq_some_iff.mp hhead
        exact hcloser more rfl rfl
      rw [balance_inside hnext, ih]
      cases Comment.body? text with
      | none => rfl
      | some cut =>
          obtain ⟨body, rest⟩ := cut
          simp only [Option.map_some, Option.bind_some, Option.map_map]
          rfl

theorem balance_commented {body : Text} (hbody : ¬['*', '/'] <:+: body) (depth : Int) (rest : Text) :
    balance false depth ('/' :: '*' :: (body ++ '*' :: '/' :: rest)) =
      (balance false depth rest).map fun (inner, after) =>
        ('/' :: '*' :: (body ++ '*' :: '/' :: inner), after) := by
  rw [balance, balance_comment, Comment.body?_append hbody, Option.bind_some, Option.map_map]
  rfl

/-! ### The search finds a brace of the kind -/

/-- What is left of a comment, if the search is in one, and then `ahead`. -/
def Resumes (inComment : Bool) (text ahead : Text) : Prop :=
  match inComment with
  | false => text = ahead
  | true => ∃ body, ¬['*', '/'] <:+: body ∧ text = body ++ '*' :: '/' :: ahead

/-- By the recursion of the search. Within a comment, what is shown lies behind its closer. -/
theorem shows_of_balance (h : balance inComment depth text = some (inner, rest)) :
    ∃ ahead shown, Resumes inComment text ahead ∧ Shows ahead shown ('}' :: rest) ∧
      depth + shown.count '{' = shown.count '}' + 1 := by
  fun_induction balance inComment depth text generalizing inner with
  | case1 => contradiction
  | case2 depth text ih =>
      obtain ⟨⟨front, _⟩, hbalance, hpair⟩ := Option.map_eq_some_iff.mp h
      obtain ⟨rfl, rfl⟩ := Prod.mk.inj hpair
      obtain ⟨ahead, shown, rfl, hshows, heven⟩ := ih hbalance
      exact ⟨text, shown, ⟨[], by simp, rfl⟩, hshows, heven⟩
  | case3 depth c text hcloser ih =>
      obtain ⟨⟨front, _⟩, hbalance, hpair⟩ := Option.map_eq_some_iff.mp h
      obtain ⟨rfl, rfl⟩ := Prod.mk.inj hpair
      obtain ⟨ahead, shown, ⟨body, hbody, rfl⟩, hshows, heven⟩ := ih hbalance
      refine ⟨ahead, shown, ⟨c :: body, fun hpart => ?_, rfl⟩, hshows, heven⟩
      obtain ⟨more, hmore⟩ := (List.infix_cons_iff.mp hpart).resolve_right hbody
      obtain ⟨rfl, rfl⟩ := List.cons.inj hmore
      exact hcloser _ rfl rfl
  | case4 depth text ih =>
      obtain ⟨⟨front, _⟩, hbalance, hpair⟩ := Option.map_eq_some_iff.mp h
      obtain ⟨rfl, rfl⟩ := Prod.mk.inj hpair
      obtain ⟨ahead, shown, ⟨body, hbody, rfl⟩, hshows, heven⟩ := ih hbalance
      exact ⟨_, shown, rfl, .comment hbody hshows, heven⟩
  | case5 depth text ih =>
      obtain ⟨⟨front, _⟩, hbalance, hpair⟩ := Option.map_eq_some_iff.mp h
      obtain ⟨rfl, rfl⟩ := Prod.mk.inj hpair
      obtain ⟨ahead, shown, rfl, hshows, heven⟩ := ih hbalance
      refine ⟨_, '{' :: shown, rfl, .char (by simp) hshows, ?_⟩
      rw [List.count_cons_self, List.count_cons_of_ne (by decide)]
      push_cast
      omega
  | case6 text =>
      obtain ⟨rfl, rfl⟩ := Prod.mk.inj (Option.some.inj h)
      exact ⟨_, [], rfl, .here _, rfl⟩
  | case7 depth text hdepth ih =>
      obtain ⟨⟨front, _⟩, hbalance, hpair⟩ := Option.map_eq_some_iff.mp h
      obtain ⟨rfl, rfl⟩ := Prod.mk.inj hpair
      obtain ⟨ahead, shown, rfl, hshows, heven⟩ := ih hbalance
      refine ⟨_, '}' :: shown, rfl, .char (by simp) hshows, ?_⟩
      rw [List.count_cons_self, List.count_cons_of_ne (by decide)]
      push_cast
      omega
  | case8 depth c text hcomment hopening hclosing ih =>
      obtain ⟨⟨front, _⟩, hbalance, hpair⟩ := Option.map_eq_some_iff.mp h
      obtain ⟨rfl, rfl⟩ := Prod.mk.inj hpair
      obtain ⟨ahead, shown, rfl, hshows, heven⟩ := ih hbalance
      refine ⟨_, c :: shown, rfl, .char (fun hstarts => ?_) hshows, ?_⟩
      · obtain ⟨rfl, more, rfl⟩ := List.cons_prefix_cons.mp hstarts
        exact hcomment _ rfl rfl
      · rw [List.count_cons_of_ne hopening, List.count_cons_of_ne hclosing]
        exact heven

/-! ### No brace of the kind stands before it -/

/-- By the way on which the brace is reached: the search ends there if it did not end before. -/
theorem exists_balance_of_shows {ahead : Text} (h : Shows text shown ahead)
    (hahead : ahead = '}' :: rest) (heven : depth + shown.count '{' = shown.count '}' + 1) :
    ∃ inner after, balance false depth text = some (inner, after) ∧ rest <:+ after := by
  induction h generalizing depth with
  | here text =>
      subst hahead
      have hdepth : depth = 1 := by simpa using heven
      exact ⟨[], rest, by rw [balance, if_pos hdepth], List.suffix_refl rest⟩
  | @comment body text shown _ hbody _ ih =>
      obtain ⟨inner, after, hbalance, hsuffix⟩ := ih hahead heven
      refine ⟨'/' :: '*' :: (body ++ '*' :: '/' :: inner), after, ?_, hsuffix⟩
      rw [balance_commented hbody, hbalance]
      rfl
  | @char c text shown _ hopener hlater ih =>
      by_cases hopening : c = '{'
      · subst hopening
        have hdeeper : depth + 1 + shown.count '{' = shown.count '}' + 1 := by
          rw [List.count_cons_self, List.count_cons_of_ne (by decide)] at heven
          push_cast at heven
          omega
        obtain ⟨inner, after, hbalance, hsuffix⟩ := ih hahead hdeeper
        exact ⟨'{' :: inner, after, by rw [balance_opening, hbalance]; rfl, hsuffix⟩
      by_cases hclosing : c = '}'
      · subst hclosing
        by_cases hdepth : depth = 1
        · refine ⟨[], text, by rw [balance, if_pos hdepth], ?_⟩
          exact (List.suffix_cons '}' rest).trans (hahead ▸ hlater.isSuffix)
        · have hshallower : depth - 1 + shown.count '{' = shown.count '}' + 1 := by
            rw [List.count_cons_self, List.count_cons_of_ne (by decide)] at heven
            push_cast at heven
            omega
          obtain ⟨inner, after, hbalance, hsuffix⟩ := ih hahead hshallower
          refine ⟨'}' :: inner, after, ?_, hsuffix⟩
          rw [balance, if_neg hdepth, hbalance]
          rfl
      · have hnext : c = '/' → text.head? ≠ some '*' := by
          rintro rfl hhead
          obtain ⟨more, rfl⟩ := List.head?_eq_some_iff.mp hhead
          exact hopener (List.prefix_append _ _)
        rw [List.count_cons_of_ne hopening, List.count_cons_of_ne hclosing] at heven
        obtain ⟨inner, after, hbalance, hsuffix⟩ := ih hahead heven
        exact ⟨c :: inner, after, by rw [balance_plain hopening hclosing hnext, hbalance]; rfl, hsuffix⟩

/-! ### The first brace of the kind -/

theorem exists_of_closingBrace? (h : closingBrace? text start = some close) :
    ∃ front inner rest, text = front ++ (inner ++ '}' :: rest) ∧ front.byteSize = start ∧
      start + inner.byteSize = close ∧
      ∀ more, balance false 0 (inner ++ '}' :: more) = some (inner, more) := by
  obtain ⟨⟨front, ahead⟩, hsplit, hclose⟩ := Option.bind_eq_some_iff.mp h
  obtain ⟨rfl, rfl⟩ := Text.splitAtByte_eq_some_iff.mp hsplit
  obtain ⟨⟨inner, rest⟩, hbalance, hoffset⟩ := Option.bind_eq_some_iff.mp hclose
  obtain ⟨rfl, hlocal⟩ := balance_local hbalance
  exact ⟨front, inner, rest, rfl, rfl, Option.some.inj hoffset, hlocal⟩

theorem evens_of_closingBrace? (h : closingBrace? text start = some close) :
    Evens text start close := by
  obtain ⟨front, inner, rest, rfl, hstart, hclose, hlocal⟩ := exists_of_closingBrace? h
  obtain ⟨_, shown, rfl, hshows, heven⟩ := shows_of_balance (hlocal rest)
  refine ⟨front, inner, shown, rest, rfl, hstart, hclose, hshows, (even_iff shown).mpr ?_⟩
  omega

theorem closingBrace?_le_of_evens (h : Evens text start close) :
    ∃ first, closingBrace? text start = some first ∧ first ≤ close := by
  obtain ⟨front, inner, shown, rest, rfl, rfl, rfl, hshows, heven⟩ := h
  have hdepth : (0 : Int) + shown.count '{' = shown.count '}' + 1 := by
    rw [even_iff] at heven
    omega
  obtain ⟨first, after, hbalance, hsuffix⟩ := exists_balance_of_shows hshows rfl hdepth
  refine ⟨front.byteSize + first.byteSize, ?_, ?_⟩
  · exact closingBrace?_eq_some_iff.mpr ⟨first, after, hbalance, rfl⟩
  · have hsplit := congrArg Text.byteSize (balance_local hbalance).1
    obtain ⟨more, rfl⟩ := hsuffix
    simp only [Text.byteSize_append, Text.byteSize] at hsplit
    omega

/-- **Closing braces.** A search from an offset finds a brace if and only if the text can be cut at the
offset and the brace is the first with which the braces read from there on outside of comments are
even. What is found depends on the text from the offset through the brace alone: it is found in
whatever text that piece stands, so too when more text follows, and when the text is cut behind the
brace. -/
theorem closingBrace?_isLeast (text : Text) (start close : Nat) :
    (closingBrace? text start = some close ↔
      (∃ front ahead, text = front ++ ahead ∧ front.byteSize = start) ∧
        IsLeast {offset | Evens text start offset} close) ∧
    (closingBrace? text start = some close →
      (∃ front piece rest, text = front ++ piece ++ rest ∧ front.byteSize = start ∧
        Text.byteSize (front ++ piece) = close + 1 ∧ ∀ lead more,
          closingBrace? (lead ++ piece ++ more) lead.byteSize =
            some (lead.byteSize + (close - start))) ∧
      (∀ more, closingBrace? (text ++ more) start = some close) ∧
      closingBrace? (text.takeBytes (close + 1)) start = some close) := by
  constructor
  · constructor
    · intro h
      obtain ⟨front, inner, rest, htext, hstart, -, -⟩ := exists_of_closingBrace? h
      refine ⟨⟨front, _, htext, hstart⟩, evens_of_closingBrace? h, fun offset hevens => ?_⟩
      obtain ⟨first, hfirst, hle⟩ := closingBrace?_le_of_evens hevens
      rw [h] at hfirst
      exact Option.some.inj hfirst ▸ hle
    · rintro ⟨-, hevens, hleast⟩
      obtain ⟨first, hfirst, hle⟩ := closingBrace?_le_of_evens hevens
      have hge : close ≤ first := hleast (evens_of_closingBrace? hfirst)
      rw [hfirst, le_antisymm hle hge]
  · intro h
    obtain ⟨front, inner, rest, rfl, rfl, rfl, hlocal⟩ := exists_of_closingBrace? h
    have hfound : ∀ lead more, closingBrace? (lead ++ (inner ++ '}' :: more)) lead.byteSize =
        some (lead.byteSize + inner.byteSize) := fun lead more =>
      closingBrace?_eq_some_iff.mpr ⟨inner, more, hlocal more, rfl⟩
    have hsize : Text.byteSize (front ++ (inner ++ ['}'])) = front.byteSize + inner.byteSize + 1 := by
      rw [Text.byteSize_append, Text.byteSize_append, Text.byteSize_closing, Nat.add_assoc]
    refine ⟨⟨front, inner ++ ['}'], rest, by simp, rfl, hsize, fun lead more => ?_⟩, fun more => ?_, ?_⟩
    · have hpiece : lead ++ (inner ++ ['}']) ++ more = lead ++ (inner ++ '}' :: more) := by simp
      rw [hpiece, hfound, Nat.add_sub_cancel_left]
    · rw [List.append_assoc, List.append_assoc, List.cons_append, hfound]
    · have hcut : front ++ (inner ++ '}' :: rest) = front ++ (inner ++ ['}']) ++ rest := by simp
      rw [← hsize, hcut, Text.takeBytes_append, hfound]

/-- Braces in a comment that begins with a slash, a lone slash, a closing brace too many in front, and
a comment that does not end. -/
def uneven : Text :=
  "é \x7d/*/\x7b*/\x7b\x7ba/b\x7d\x7d \x7b /* c".toList

theorem closingBrace?_uneven :
    closingBrace? uneven 3 = some 15 ∧ IsLeast {offset | Evens uneven 3 offset} 15 ∧
      closingBrace? (uneven.takeBytes 16) 3 = some 15 := by
  have hfound : closingBrace? uneven 3 = some 15 := by decide
  obtain ⟨hiff, hlocal⟩ := closingBrace?_isLeast uneven 3 15
  exact ⟨hfound, (hiff.mp hfound).2, (hlocal hfound).2.2⟩

end Stylesheet
