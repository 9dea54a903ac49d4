import Stylesheet.Proofs.CommentTokens

/-!
# Listed comments

The inventory of a listing is the list that was written. Each comment of a listing ends with its own
closer, and the line feeds between neighbours belong to none of them.
-/

namespace Stylesheet.Comment

open Text (Trimmed)

/-- A value that is read back from a listing. -/
@[mk_iff]
structure Listable (value : Text) : Prop where
  trimmed : Trimmed value
  closer : ¬['*', '/'] <:+: value

instance : DecidablePred Listable := fun value =>
  decidable_of_iff' _ (listable_iff value)

/-- The line on which a comment of a listing begins: before it stand other comments, each with a line
feed behind it. -/
def lineBehind (earlier : List Comment) : Nat :=
  1 + (earlier.flatMap Comment.value).count '\n' + earlier.length

variable {comment : Comment} {comments : List Comment} {value : Text}

theorem listable_of_mem_inventory {text : Text} (h : comment ∈ inventory text) :
    Listable comment.value := by
  obtain ⟨site, hsite, rfl⟩ := List.mem_map.mp h
  obtain ⟨ahead, -, hreading⟩ := Pattern.eq_some_of_mem_occurrences hsite
  have hform := pattern_reads.form_of_eq_some hreading
  exact ⟨Text.trim_trim _, fun hpair => hform.body (hpair.trans (Text.trim_isInfix _))⟩

theorem lineBehind_cons (comment : Comment) (earlier : List Comment) :
    lineBehind (comment :: earlier) = comment.value.count '\n' + 1 + lineBehind earlier := by
  simp only [lineBehind, List.flatMap_cons, List.count_append, List.length_cons]
  omega

theorem count_block (value : Text) : (block value).count '\n' = value.count '\n' := by
  simp [block, List.count_append]

theorem listing_cons_cons (comment next : Comment) (comments : List Comment) :
    listing (comment :: next :: comments) =
      block comment.value ++ '\n' :: listing (next :: comments) := by
  simp [listing, Text.unlines, List.intercalate_cons_cons]

theorem scanFrom_block (h : Listable value) (before rest : Text) :
    (scanFrom pattern.move 0 before (block value ++ rest)).map ofSite =
      ⟨before.count '\n' + 1, value⟩ ::
        (scanFrom pattern.move 0 ((block value).reverse ++ before) rest).map ofSite := by
  have hblock : block value = ['/', '*'] ++ (' ' :: value ++ [' ']) ++ ['*', '/'] := by simp [block]
  have htrim : Text.trim (' ' :: value ++ [' ']) = value := h.trimmed.trim_pad blank_space blank_space
  rw [hblock, scanFrom_comment (not_closer_pad h.closer), List.map_cons, ofSite, htrim, Site.line]

/-- Behind `before`, a listing holds its comments and nothing else. -/
theorem scanFrom_listing (h : ∀ comment ∈ comments, Listable comment.value) (before : Text) :
    (scanFrom pattern.move 0 before (listing comments)).map ofSite =
      comments.mapIdx fun index comment =>
        ⟨before.count '\n' + lineBehind (comments.take index), comment.value⟩ := by
  induction comments generalizing before with
  | nil => rfl
  | cons comment comments ih =>
      obtain ⟨hvalue, hvalues⟩ := List.forall_mem_cons.mp h
      -- The next comment begins behind the line feed that ends this one's line.
      have hrest : (scanFrom pattern.move 0 before (listing (comment :: comments))).map ofSite =
          ⟨before.count '\n' + 1, comment.value⟩ ::
            (scanFrom pattern.move 0 ('\n' :: ((block comment.value).reverse ++ before))
              (listing comments)).map ofSite := by
        cases comments with
        | nil =>
            have hlisting : listing [comment] = block comment.value ++ [] := by
              simp [listing, Text.unlines]
            rw [hlisting, scanFrom_block hvalue]
            rfl
        | cons next comments =>
            rw [listing_cons_cons, scanFrom_block hvalue,
              Pattern.scanFrom_of_none (pattern_cons_eq_none (by simp))]
      have hcount : ('\n' :: ((block comment.value).reverse ++ before)).count '\n' =
          before.count '\n' + (comment.value.count '\n' + 1) := by
        rw [List.count_cons_self, List.count_append, List.count_reverse, count_block]
        omega
      rw [hrest, ih hvalues, hcount, List.mapIdx_cons]
      refine congrArg (_ :: ·) (congrArg (List.mapIdx · comments) (funext₂ fun index other => ?_))
      rw [List.take_succ_cons, lineBehind_cons, Nat.add_assoc]

/-- **Listed comments.** The inventory of a listing has the values that were written, each on the line
on which its comment begins. What the inventory of a text has can be written so, and is read back. -/
theorem inventory_listing :
    (∀ comments : List Comment, (∀ comment ∈ comments, Listable comment.value) →
      inventory (listing comments) = comments.mapIdx fun index comment =>
        ⟨lineBehind (comments.take index), comment.value⟩) ∧
    ∀ text, (∀ comment ∈ inventory text, Listable comment.value) ∧
      (inventory (listing (inventory text))).map Comment.value =
        (inventory text).map Comment.value := by
  have hlisting : ∀ comments : List Comment, (∀ comment ∈ comments, Listable comment.value) →
      inventory (listing comments) = comments.mapIdx fun index comment =>
        ⟨lineBehind (comments.take index), comment.value⟩ := by
    intro comments h
    have hscan : inventory (listing comments) = _ := scanFrom_listing h []
    simpa only [List.count_nil, Nat.zero_add] using hscan
  refine ⟨hlisting, fun text => ⟨fun comment hcomment => listable_of_mem_inventory hcomment, ?_⟩⟩
  rw [hlisting _ fun comment hcomment => listable_of_mem_inventory hcomment]
  refine List.ext_getElem? fun index => ?_
  rw [List.getElem?_map, List.getElem?_mapIdx, Option.map_map, List.getElem?_map]
  rfl

/-- Values that hold an opener, nothing at all, and the parts of a closer on two lines. -/
def ragged : List Comment :=
  [⟨7, "/* a".toList⟩, ⟨7, []⟩, ⟨7, "*\n/".toList⟩, ⟨7, "b".toList⟩]

theorem inventory_listing_ragged : (∀ comment ∈ ragged, Listable comment.value) ∧
    inventory (listing ragged) =
      [⟨1, "/* a".toList⟩, ⟨2, []⟩, ⟨3, "*\n/".toList⟩, ⟨5, "b".toList⟩] := by
  have hlistable : ∀ comment ∈ ragged, Listable comment.value := by decide
  exact ⟨hlistable, inventory_listing.1 ragged hlistable⟩

end Stylesheet.Comment
