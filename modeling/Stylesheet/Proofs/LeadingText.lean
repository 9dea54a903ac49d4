import Stylesheet.Proofs.AttachedComments
import Stylesheet.Proofs.Walks
import Stylesheet.Sheet

/-!
# Text in front of a source

A scan that passes over a text finds behind it what it finds without it, only that the text stands
before every find. So each find is on a later line, and its comments are read back into the text in
front of the source if nothing parts them from it.
-/

namespace Stylesheet

namespace Site

variable {α : Type}

/-- A find when `lead` stands in front of the text in which it was found. -/
def behind (lead : Text) (site : Site α) : Site α :=
  ⟨site.before ++ lead.reverse, site.content⟩

theorem line_behind (lead : Text) (site : Site α) :
    (site.behind lead).line = site.line + lead.count '\n' := by
  rw [line, line, behind, List.count_append, List.count_reverse]
  omega

end Site

section Scans

variable {α : Type} {move : Text → Move α} {lead text : Text}

theorem scanFrom_behind (move : Text → Move α) (skip : Nat) (lead before text : Text) :
    scanFrom move skip (before ++ lead.reverse) text =
      (scanFrom move skip before text).map (Site.behind lead) := by
  induction text generalizing skip before with
  | nil => rfl
  | cons c text ih =>
      have hnext : ∀ skip, scanFrom move skip (c :: (before ++ lead.reverse)) text =
          (scanFrom move skip (c :: before) text).map (Site.behind lead) := fun skip =>
        ih skip (c :: before)
      cases skip with
      | succ skip => exact hnext skip
      | zero =>
          rw [scanFrom, scanFrom]
          cases move (c :: text) with
          | stop => rfl
          | pass length => exact hnext _
          | take found length => exact congrArg (_ :: ·) (hnext _)

theorem scanFrom_reverse (move : Text → Move α) (lead text : Text) :
    scanFrom move 0 lead.reverse text = (scan move text).map (Site.behind lead) :=
  scanFrom_behind move 0 lead [] text

theorem Passes.scan_append (h : Passes move lead) (text : Text) :
    scan move (lead ++ text) = (scan move text).map (Site.behind lead) := by
  rw [scan, h, List.append_nil, scanFrom_reverse]

theorem scan_append_of_pass
    (h : ∀ passed ahead, lead = passed ++ ahead → ahead ≠ [] → move (ahead ++ text) = .pass 1) :
    scan move (lead ++ text) = (scan move text).map (Site.behind lead) := by
  rw [scan, scanFrom_pass_each h, List.append_nil, scanFrom_reverse]

end Scans

namespace Adjacency

variable {adjacency : Adjacency}

/-- Nothing parts the beginning of a text from its end: between them stand only blanks and comments.
A closer without opener counts as the end of a comment that began before the text. -/
inductive Joined (adjacency : Adjacency) : (front : Text) → Prop
  | nil : Joined adjacency []
  | blank {front : Text} {c : Char} (joined : Joined adjacency front)
      (allowed : adjacency.allows c = true) : Joined adjacency (front ++ [c])
  | comment {front body : Text} (joined : Joined adjacency front)
      (opener : ¬['/', '*'] <:+: body) :
      Joined adjacency (front ++ "/*".toList ++ body ++ "*/".toList)
  | stray {body : Text} (opener : ¬['/', '*'] <:+: body) : Joined adjacency (body ++ "*/".toList)

theorem head?_append_ne {c : Char} {before more : Text} (hbefore : ∀ rest, before ≠ c :: rest)
    (hmore : c ∉ more.head?) : (before ++ more).head? ≠ some c := by
  cases before with
  | nil => exact hmore
  | cons d before =>
      intro hhead
      obtain rfl := Option.some.inj hhead
      exact hbefore before rfl

/-- The text that is joined if reading back from a place goes on to the beginning. -/
def awaited : (inside : Option Text) → (before : Text) → Text
  | none, before => before.reverse
  | some body, before => before.reverse ++ body ++ "*/".toList

/-- More text before a place has a part in its comments only if nothing parts it from the place. -/
theorem readBack_append {more : Text} (hstar : '*' ∉ more.head?) (hslash : '/' ∉ more.head?)
    {inside : Option Text} {before : Text} (hinside : ∀ body ∈ inside, Unopened body before) :
    (∃ state, adjacency.Joined (awaited inside before) ∧
      adjacency.readBack inside (before ++ more) =
        adjacency.readBack inside before ++ adjacency.readBack state more) ∨
      adjacency.readBack inside (before ++ more) = adjacency.readBack inside before := by
  fun_induction readBack adjacency inside before with
  | case1 before ih =>
      refine (ih (forall_unopened_nil before)).imp_left ?_
      rintro ⟨state, hjoined, hmore⟩
      refine ⟨state, ?_, hmore⟩
      simpa [awaited] using hjoined
  | case2 c before hpair hallows ih =>
      have hread : adjacency.readBack none (c :: before ++ more) =
          adjacency.readBack none (before ++ more) := by
        rw [List.cons_append, readBack_outside, if_pos hallows]
        exact fun hc => head?_append_ne (fun rest => hpair rest hc) hstar
      rw [hread]
      refine (ih (forall_unopened_none before)).imp_left ?_
      rintro ⟨state, hjoined, hmore⟩
      refine ⟨state, ?_, hmore⟩
      rw [awaited, List.reverse_cons]
      exact hjoined.blank hallows
  | case3 c before hpair hallows =>
      right
      rw [List.cons_append, readBack_outside, if_neg hallows]
      exact fun hc => head?_append_ne (fun rest => hpair rest hc) hstar
  | case4 body before ih =>
      refine (ih (forall_unopened_none before)).imp ?_ (congrArg (Comment.normalize body :: ·))
      rintro ⟨state, hjoined, hmore⟩
      refine ⟨state, ?_, congrArg (Comment.normalize body :: ·) hmore⟩
      have hcomment := Joined.comment hjoined (hinside body rfl).opener
      simpa [awaited] using hcomment
  | case5 body c before hnext ih =>
      have hread : adjacency.readBack (some body) (c :: before ++ more) =
          adjacency.readBack (some (c :: body)) (before ++ more) := by
        rw [List.cons_append, readBack_within]
        exact fun hc => head?_append_ne (fun rest => hnext rest hc) hslash
      rw [hread]
      refine (ih (forall_unopened_cons (hinside body rfl) hnext)).imp_left ?_
      rintro ⟨state, hjoined, hmore⟩
      refine ⟨state, ?_, hmore⟩
      simpa [awaited] using hjoined
  | case6 inside =>
      refine .inl ⟨inside, ?_, rfl⟩
      cases inside with
      | none => exact .nil
      | some body => exact .stray (hinside body rfl).opener

theorem readBack_none_append {more : Text} (hstar : '*' ∉ more.head?) (hslash : '/' ∉ more.head?)
    (before : Text) :
    (∃ state, adjacency.Joined before.reverse ∧
      adjacency.readBack none (before ++ more) =
        adjacency.readBack none before ++ adjacency.readBack state more) ∨
      adjacency.readBack none (before ++ more) = adjacency.readBack none before :=
  readBack_append hstar hslash (forall_unopened_none before)

theorem attached_congr {before before' : Text}
    (h : adjacency.readBack none before = adjacency.readBack none before') :
    adjacency.attached before = adjacency.attached before' := by
  rw [attached, h, attached]

/-- Blanks in front of a text leave the comments in it where they are. -/
theorem attached_append_blank {blanks : Text} (hblanks : Blank blanks) (before : Text) :
    adjacency.attached (before ++ blanks) = adjacency.attached before := by
  have hstar : '*' ∉ blanks := Text.not_mem_of_forall hblanks rfl
  have hslash : '/' ∉ blanks := Text.not_mem_of_forall hblanks rfl
  have hnothing : ∀ state, adjacency.readBack state blanks = [] :=
    readBack_eq_nil (not_pair_of_not_mem hstar)
  apply attached_congr
  rcases readBack_none_append (fun hhead => hstar (List.mem_of_head? hhead))
    (fun hhead => hslash (List.mem_of_head? hhead)) before with ⟨state, -, hread⟩ | hread
  · rw [hread, hnothing, List.append_nil]
  · exact hread

theorem head?_feed_ne {c : Char} (hc : c ≠ '\n') (more : Text) : c ∉ ('\n' :: more).head? :=
  fun hhead => hc (Option.some.inj hhead).symm

/-- Lines in front of a text do not take comments away, and add some only to what is joined to
them. -/
theorem attached_append_feed (more before : Text) :
    (adjacency.attached before).getD [] <:+ (adjacency.attached (before ++ '\n' :: more)).getD [] ∧
      (¬adjacency.Joined before.reverse →
        adjacency.attached (before ++ '\n' :: more) = adjacency.attached before) := by
  rw [getD_attached, getD_attached]
  rcases readBack_none_append (head?_feed_ne (by decide) more) (head?_feed_ne (by decide) more)
    before with ⟨state, hjoined, hread⟩ | hread
  · refine ⟨?_, fun hapart => absurd hjoined hapart⟩
    rw [hread, List.reverse_append]
    exact List.suffix_append _ _
  · refine ⟨?_, fun _ => attached_congr hread⟩
    rw [hread]

end Adjacency

end Stylesheet
