import Mathlib.Data.List.Forall2
import Stylesheet.Proofs.InventoriedComments
import Stylesheet.Proofs.TokenTiling

/-!
# Comment tokens

The inventory lists the comments among the tokens of a text. It passes over every other token: braces,
lone slashes and plain text hold no opener, and a comment that never ends holds no closer behind its
own opener.
-/

namespace Stylesheet

/-- The line of a find is that of its offset. -/
theorem Site.line_eq {α : Type} {move : Text → Move α} {text : Text} {site : Site α}
    (h : site ∈ scan move text) : site.line = text.lineNumber site.offset := by
  obtain ⟨passed, ahead, length, rfl, hbefore, -⟩ := mem_scan h
  rw [line, offset, hbefore, Text.byteSize_reverse, Text.lineNumber_append, List.count_reverse]

namespace Token

variable {ahead rest : Text} {token : Token}

/-- A token is a comment, or it is what no comment begins in. -/
theorem first?_cases (h : first? ahead = some token) (hahead : ahead = token.lexeme ++ rest) :
    (∃ body, ¬['*', '/'] <:+: body ∧ token = ⟨.comment, ['/', '*'] ++ body ++ ['*', '/']⟩) ∨
      (∃ inside, ¬['*', '/'] <:+: inside ∧ token = ⟨.openComment, '/' :: '*' :: inside⟩ ∧
        rest = []) ∨
      token.kind ≠ .comment ∧ token.kind ≠ .openComment ∧
        ('/' ∉ token.lexeme ∨ token.lexeme = ['/'] ∧ rest.head? ≠ some '*') := by
  fun_cases first? ahead with
  | case1 => contradiction
  | case2 =>
      obtain rfl := Option.some.inj h
      exact .inr (.inr ⟨by decide, by decide, .inl (by decide)⟩)
  | case3 =>
      obtain rfl := Option.some.inj h
      exact .inr (.inr ⟨by decide, by decide, .inl (by decide)⟩)
  | case4 inside body after hbody =>
      rw [first?, hbody] at h
      exact .inl ⟨body, Comment.not_closer_of_body? hbody, (Option.some.inj h).symm⟩
  | case5 inside hbody =>
      rw [first?, hbody] at h
      obtain rfl := Option.some.inj h
      exact .inr (.inl ⟨inside, Comment.body?_eq_none_iff.mp hbody, rfl,
        List.append_right_eq_self.mp hahead.symm⟩)
  | case6 inside hstar =>
      rw [first?] at h
      · obtain rfl := Option.some.inj h
        obtain rfl : inside = rest := (List.cons.inj hahead).2
        refine .inr (.inr ⟨by decide, by decide, .inr ⟨rfl, fun hhead => ?_⟩⟩)
        obtain ⟨more, hmore⟩ := List.head?_eq_some_iff.mp hhead
        exact hstar more hmore
      · exact hstar
  | case7 hnil hopening hclosing _ hslash =>
      rw [first?] at h
      · obtain rfl := Option.some.inj h
        refine .inr (.inr ⟨by simp, by simp, .inl fun hmem => ?_⟩)
        have hplain := List.mem_takeWhile_imp hmem
        contradiction
      all_goals assumption

theorem exists_body (h : first? (token.lexeme ++ rest) = some token) (hkind : token.kind = .comment) :
    ∃ body, ¬['*', '/'] <:+: body ∧ token.lexeme = ['/', '*'] ++ body ++ ['*', '/'] := by
  rcases first?_cases h rfl with ⟨body, hbody, rfl⟩ | ⟨inside, -, rfl, -⟩ | ⟨hother, -⟩
  · exact ⟨body, hbody, rfl⟩
  · contradiction
  · exact absurd hkind hother

theorem rest_eq_nil (h : first? (token.lexeme ++ rest) = some token)
    (hkind : token.kind = .openComment) : rest = [] := by
  rcases first?_cases h rfl with ⟨body, -, rfl⟩ | ⟨inside, -, -, hrest⟩ | ⟨-, hother, -⟩
  · contradiction
  · exact hrest
  · exact absurd hkind hother

end Token

namespace Comment

/-- A find as the inventory lists it. -/
def ofSite (site : Site Reading) : Comment :=
  ⟨site.line, site.content.value.trim⟩

variable {token : Token} {text inside ahead rest body before : Text}

theorem pattern_cons_eq_none {c : Char} (h : c = '/' → rest.head? ≠ some '*') :
    pattern (c :: rest) = none := by
  unfold pattern
  split
  · next heq =>
      obtain ⟨rfl, rfl⟩ := List.cons.inj heq
      exact absurd rfl (h rfl)
  · rfl

/-- Without a closer behind the first two characters there is no comment. -/
theorem pattern_eq_none (h : ¬['*', '/'] <:+: inside) {x y : Char} {passed : Text}
    (hsplit : x :: y :: inside = passed ++ ahead) : pattern ahead = none := by
  by_contra hsome
  obtain ⟨reading, hreading⟩ := Option.ne_none_iff_exists'.mp hsome
  have hform := pattern_reads.form_of_eq_some hreading
  have htext : x :: y :: inside =
      (passed ++ ['/', '*']) ++ (reading.value ++ ['*', '/'] ++ reading.rest) := by
    rw [hsplit, pattern_reads.text_eq hreading, Reading.text, hform.opener, hform.closer]
    simp
  have hinside : inside =
      (passed ++ ['/', '*']).drop 2 ++ (reading.value ++ ['*', '/'] ++ reading.rest) := by
    have hdrop := congrArg (List.drop 2) htext
    rwa [List.drop_append_of_le_length (by simp)] at hdrop
  rw [hinside] at h
  exact h ((List.infix_append _ _ _).trans (List.suffix_append _ _).isInfix)

/-- No comment begins in a token that is not a comment with an end. -/
theorem pattern_eq_none_of_first (hfirst : Token.first? (token.lexeme ++ rest) = some token)
    (hkind : token.kind ≠ .comment) {passed : Text} (hsplit : token.lexeme = passed ++ ahead)
    (hahead : ahead ≠ []) : pattern (ahead ++ rest) = none := by
  obtain ⟨c, ahead, rfl⟩ := List.exists_cons_of_ne_nil hahead
  rcases Token.first?_cases hfirst rfl with
    ⟨body, -, rfl⟩ | ⟨inside, hinside, rfl, rfl⟩ | ⟨-, -, hplain | ⟨hslash, hstar⟩⟩
  · exact absurd rfl hkind
  · rw [List.append_nil]
    exact pattern_eq_none hinside hsplit
  · refine pattern_cons_eq_none fun hc => absurd ?_ hplain
    rw [hsplit, ← hc]
    exact List.mem_append_right passed List.mem_cons_self
  · have hends : ['/'] = passed ++ c :: ahead := hslash.symm.trans hsplit
    obtain ⟨-, hcons⟩ := List.append_eq_singleton_iff.mp hends.symm |>.resolve_right (by simp)
    obtain ⟨rfl, rfl⟩ := List.cons.inj hcons
    exact pattern_cons_eq_none fun _ => hstar

theorem scanFrom_other (hfirst : Token.first? (token.lexeme ++ ahead) = some token)
    (hkind : token.kind ≠ .comment) (hrest : rest <+: ahead) (before : Text) :
    scanFrom pattern.move 0 before (token.lexeme ++ rest) =
      scanFrom pattern.move 0 (token.lexeme.reverse ++ before) rest := by
  obtain ⟨more, rfl⟩ := hrest
  refine scanFrom_pass_each fun passed piece hsplit hpiece => Pattern.move_eq_pass ?_
  have hnone := pattern_eq_none_of_first hfirst hkind hsplit hpiece
  rw [← List.append_assoc] at hnone
  exact pattern_reads.eq_none_of_append hnone

theorem scanFrom_comment (hbody : ¬['*', '/'] <:+: body) (before rest : Text) :
    scanFrom pattern.move 0 before (['/', '*'] ++ body ++ ['*', '/'] ++ rest) =
      ⟨before, ⟨['/', '*'], body, ['*', '/'], rest⟩⟩ ::
        scanFrom pattern.move 0 ((['/', '*'] ++ body ++ ['*', '/']).reverse ++ before) rest :=
  scanFrom_take (by simp)
    (Pattern.move_eq_take_iff.mpr ⟨pattern_reads.of_form ⟨rfl, hbody, rfl⟩ rest, rfl⟩)

/-- What the inventory finds is a token that is a comment with an end. -/
structure Lists (token : Site Token) (reading : Site Reading) : Prop where
  before : token.before = reading.before
  lexeme : token.content.lexeme = ['/', '*'] ++ reading.content.value ++ ['*', '/']

theorem forall₂_scanFrom (text : Text) : ∀ before, List.Forall₂ Lists
    ((scanFrom Token.move 0 before text).filter fun site => site.content.kind = .comment)
    (scanFrom pattern.move 0 before text) := by
  induction text using Token.induction with
  | nil => exact fun before => .nil
  | cons token rest hfirst hne ih =>
      intro before
      rw [Token.scanFrom_first hfirst hne]
      by_cases hkind : token.kind = .comment
      · obtain ⟨body, hbody, hlexeme⟩ := Token.exists_body hfirst hkind
        rw [List.filter_cons_of_pos (by simpa using hkind), hlexeme, scanFrom_comment hbody]
        exact .cons ⟨rfl, hlexeme⟩ (ih _)
      · rw [List.filter_cons_of_neg (by simpa using hkind),
          scanFrom_other hfirst hkind (List.prefix_refl rest)]
        exact ih _

/-- A comment that never ends takes the rest of a text, and the inventory has nothing of it. -/
theorem exists_front_of_open (text : Text) : ∀ before,
    ∀ site ∈ scanFrom Token.move 0 before text, site.content.kind = .openComment →
      ∃ front, text = front ++ site.content.lexeme ∧ site.before = front.reverse ++ before ∧
        (scanFrom pattern.move 0 before text).map ofSite =
          (scanFrom pattern.move 0 before front).map ofSite := by
  induction text using Token.induction with
  | nil => exact fun before site hsite => absurd hsite List.not_mem_nil
  | cons token rest hfirst hne ih =>
      intro before site hsite hkind
      rw [Token.scanFrom_first hfirst hne] at hsite
      rcases List.mem_cons.mp hsite with rfl | hsite
      · obtain rfl := Token.rest_eq_nil hfirst hkind
        refine ⟨[], List.append_nil _, rfl, ?_⟩
        rw [scanFrom_other hfirst (by rw [hkind]; decide) List.prefix_rfl]
        rfl
      · obtain ⟨front, rfl, hbefore, hscan⟩ := ih _ site hsite hkind
        refine ⟨token.lexeme ++ front, (List.append_assoc _ _ _).symm, by simp [hbefore], ?_⟩
        by_cases hcomment : token.kind = .comment
        · obtain ⟨body, hbody, hlexeme⟩ := Token.exists_body hfirst hcomment
          rw [hlexeme] at hscan ⊢
          rw [scanFrom_comment hbody, scanFrom_comment hbody, List.map_cons, List.map_cons, hscan]
          rfl
        · rw [scanFrom_other hfirst hcomment List.prefix_rfl,
            scanFrom_other hfirst hcomment (List.prefix_append front _), hscan]

/-- **Comment tokens.** The inventory lists the comments with an end among the tokens, each with what
stands between its opener and its closer and with its line, and nothing else. -/
theorem forall₂_inventory (text : Text) :
    List.Forall₂ (fun site comment =>
        (∃ body, site.content.lexeme = ['/', '*'] ++ body ++ ['*', '/'] ∧
          comment.value = Text.trim body) ∧ comment.line = text.lineNumber site.offset)
      ((Token.sites text).filter fun site => site.content.kind = .comment) (inventory text) ∧
    ∀ site ∈ Token.sites text, site.content.kind = .openComment →
      text = site.before.reverse ++ site.content.lexeme ∧
        inventory text = inventory site.before.reverse := by
  constructor
  · have hline : ∀ site ∈ (Token.sites text).filter fun site => site.content.kind = .comment,
        site.line = text.lineNumber site.offset :=
      fun site hsite => Site.line_eq (List.mem_of_mem_filter hsite)
    have hlists := (List.forall₂_and_left _ _).mpr ⟨hline, forall₂_scanFrom text []⟩
    refine List.forall₂_map_right_iff.mpr (hlists.imp fun site reading h => ?_)
    obtain ⟨hline, hbefore, hlexeme⟩ := h
    refine ⟨⟨reading.content.value, hlexeme, rfl⟩, ?_⟩
    rw [← hline, Site.line, Site.line, hbefore]
  · intro site hsite hkind
    obtain ⟨front, htext, hbefore, hscan⟩ := exists_front_of_open text [] site hsite hkind
    rw [List.append_nil] at hbefore
    rw [hbefore, List.reverse_reverse]
    exact ⟨htext, hscan⟩

example : inventory "/*/\n */ /* ü */ //* a */ /* b".toList =
    [⟨1, ['/']⟩, ⟨2, ['ü']⟩, ⟨2, ['a']⟩] := by
  decide

end Comment

end Stylesheet
