import Stylesheet.Proofs.InventoriedComments
import Stylesheet.Proofs.MatchedPieces
import Stylesheet.Proofs.Occurrences
import Stylesheet.Proofs.ParsedRules

/-!
# Stripping and splitting

A block may be split into pieces whose comments are then removed, or its comments may be removed before
it is split. As long as no comment that is removed holds a semicolon, a comment lies in one piece with
both of its ends, and both ways give the same declarations.
-/

namespace Stylesheet

/-! ### Text outside of pieces -/

/-- Whether a piece found in a text holds the character at an index. -/
def Site.holds (site : Site Reading) (index : Nat) : Bool :=
  site.before.length ≤ index && index < site.before.length + site.content.text.length

namespace Text

/-- The characters of a text, counted from `start` on, that lie in none of some pieces. -/
def outsideFrom (start : Nat) (sites : List (Site Reading)) (text : Text) : Text :=
  ((text.zipIdx start).filter fun pair => !sites.any (·.holds pair.2)).map Prod.fst

/-- The characters of a text that lie in none of the pieces found in it. -/
def outside (sites : List (Site Reading)) (text : Text) : Text :=
  outsideFrom 0 sites text

variable {sites others : List (Site Reading)} {start : Nat} {text front back : Text}

theorem outsideFrom_append (start : Nat) (sites : List (Site Reading)) (front back : Text) :
    outsideFrom start sites (front ++ back) =
      outsideFrom start sites front ++ outsideFrom (start + front.length) sites back := by
  rw [outsideFrom, List.zipIdx_append, List.filter_append, List.map_append]
  rfl

theorem outsideFrom_congr (h : ∀ index, start ≤ index → index < start + text.length →
    sites.any (·.holds index) = others.any (·.holds index)) :
    outsideFrom start sites text = outsideFrom start others text := by
  refine congrArg _ (List.filter_congr fun pair hpair => ?_)
  obtain ⟨hstart, hstop, -⟩ := List.mem_zipIdx hpair
  rw [h pair.2 hstart hstop]

theorem outsideFrom_eq_self (h : ∀ index, start ≤ index → index < start + text.length →
    ∀ site ∈ sites, site.holds index = false) : outsideFrom start sites text = text := by
  have hall : (text.zipIdx start).filter (fun pair => !sites.any (·.holds pair.2)) =
      text.zipIdx start := by
    refine List.filter_eq_self.mpr fun pair hpair => ?_
    obtain ⟨hstart, hstop, -⟩ := List.mem_zipIdx hpair
    simpa using h pair.2 hstart hstop
  rw [outsideFrom, hall, List.zipIdx_map_fst]

theorem outsideFrom_eq_nil {site : Site Reading} (hsite : site ∈ sites)
    (h : ∀ index, start ≤ index → index < start + text.length → site.holds index = true) :
    outsideFrom start sites text = [] := by
  rw [outsideFrom, List.map_eq_nil_iff, List.filter_eq_nil_iff]
  intro pair hpair
  obtain ⟨hstart, hstop, -⟩ := List.mem_zipIdx hpair
  have hany : sites.any (·.holds pair.2) = true :=
    List.any_eq_true.mpr ⟨site, hsite, h pair.2 hstart hstop⟩
  simp [hany]

end Text

/-! ### Removing the pieces of a pattern -/

namespace Declaration

variable {pattern : Pattern} {form : Text → Text → Text → Prop} {mark : Char}
  {front back piece rest text body : Text} {reading : Reading}

theorem removeFrom_length (pattern : Pattern) (piece rest : Text) :
    removeFrom pattern piece.length (piece ++ rest) = removeFrom pattern 0 rest := by
  induction piece with
  | nil => rfl
  | cons c piece ih => exact ih

theorem removeFrom_of_none {c : Char} (h : pattern (c :: text) = none) :
    removeFrom pattern 0 (c :: text) = c :: removeFrom pattern 0 text := by
  rw [removeFrom, h]

theorem removeFrom_of_some (hmarked : pattern.Marked mark) (h : pattern text = some reading) :
    removeFrom pattern 0 text = removeFrom pattern 0 reading.rest := by
  obtain ⟨c, piece, hpiece⟩ := List.exists_cons_of_ne_nil (hmarked.text_ne_nil h)
  have htext := (hmarked text reading h).1
  rw [hpiece, List.cons_append] at htext
  rw [htext] at h ⊢
  rw [removeFrom, h]
  simp only [hpiece, List.length_cons, Nat.add_sub_cancel]
  exact removeFrom_length pattern piece reading.rest

theorem holds_eq_false_of_mem {site : Site Reading} {before : Text} {index : Nat}
    (h : site ∈ scanFrom pattern.move 0 before text) (hindex : index < before.length) :
    site.holds index = false := by
  have hlength := (before_isSuffix_of_mem_scanFrom h).length_le
  have hbefore : ¬site.before.length ≤ index := by omega
  simp [Site.holds, hbefore]

/-- What is removed is what a scan with the pattern finds. -/
theorem removeFrom_eq_outsideFrom (hmarked : pattern.Marked mark) (before text : Text) :
    removeFrom pattern 0 text =
      text.outsideFrom before.length (scanFrom pattern.move 0 before text) := by
  induction text using hmarked.searches.strides.induction generalizing before with
  | hnil => rfl
  | hstop text _ hstop => exact absurd hstop (Pattern.move_ne_stop pattern text)
  | hpiece piece rest hpiece hcovers ih =>
      have hbehind : before.length + piece.length = (piece.reverse ++ before).length := by
        rw [List.length_append, List.length_reverse, Nat.add_comm]
      rw [Text.outsideFrom_append, hbehind]
      cases hread : pattern (piece ++ rest) with
      | none =>
          have hmove := Pattern.move_eq_pass hread
          obtain ⟨c, rfl⟩ : ∃ c, piece = [c] := by
            have hlength := hcovers.length_eq
            rw [hmove] at hlength
            exact List.length_eq_one_iff.mp hlength.symm
          rw [scanFrom_pass (List.cons_ne_nil _ _) hmove, ← ih, Text.outsideFrom_eq_self]
          · exact removeFrom_of_none hread
          · -- What is found behind the character does not hold it.
            intro index _ hindex site hsite
            exact holds_eq_false_of_mem hsite (by simpa [Nat.add_comm] using hindex)
      | some reading =>
          have hmove : pattern.move (piece ++ rest) = .take reading reading.text.length :=
            Pattern.move_eq_take_iff.mpr ⟨hread, rfl⟩
          have hlength : reading.text.length = piece.length := by
            have hlength := hcovers.length_eq
            rwa [hmove] at hlength
          rw [hlength] at hmove
          have htext := (hmarked _ reading hread).1
          obtain ⟨rfl, rfl⟩ := List.append_inj htext hlength.symm
          rw [removeFrom_of_some hmarked hread, ih (reading.text.reverse ++ before),
            scanFrom_take hpiece hmove, Text.outsideFrom_eq_nil List.mem_cons_self, List.nil_append]
          · refine Text.outsideFrom_congr fun index hindex _ => ?_
            have hover : Site.holds ⟨before, reading⟩ index = false := by
              have hstop : ¬index < before.length + reading.text.length := by omega
              simp [Site.holds, hstop]
            rw [List.any_cons, hover, Bool.false_or]
          · intro index hstart hstop
            simp [Site.holds, hstart, hstop]

theorem removeFrom_eq_outside (hmarked : pattern.Marked mark) (text : Text) :
    removeFrom pattern 0 text = text.outside (pattern.occurrences text) :=
  removeFrom_eq_outsideFrom hmarked [] text

/-- Where no piece lies across a cut of the text, both parts are treated on their own. -/
theorem removeFrom_append (hreads : pattern.Reads form) (hmarked : pattern.Marked mark)
    (before front back : Text) (h : ∀ site ∈ scanFrom pattern.move 0 before (front ++ back),
      site.before.length < before.length + front.length →
        site.before.length + site.content.text.length ≤ before.length + front.length) :
    removeFrom pattern 0 (front ++ back) =
      removeFrom pattern 0 front ++ removeFrom pattern 0 back := by
  induction hlength : front.length using Nat.strong_induction_on generalizing front before with
  | _ length ih =>
      by_cases hne : front = []
      · subst hne
        rfl
      cases hread : pattern (front ++ back) with
      | none =>
          obtain ⟨c, front, rfl⟩ := List.exists_cons_of_ne_nil hne
          have hscan : scanFrom pattern.move 0 before (c :: front ++ back) =
              scanFrom pattern.move 0 (c :: before) (front ++ back) :=
            Pattern.scanFrom_of_none hread
          rw [hscan] at h
          have hremove := ih front.length (hlength ▸ Nat.lt_succ_self _) (c :: before) front
            (by simpa [Nat.add_assoc, Nat.add_comm 1] using h) rfl
          rw [removeFrom_of_none (hreads.eq_none_of_append hread), List.cons_append, List.cons_append,
            ← hremove]
          exact removeFrom_of_none hread
      | some reading =>
          have hpiece := hmarked.text_ne_nil hread
          have hscan : scanFrom pattern.move 0 before (front ++ back) =
              ⟨before, reading⟩ :: scanFrom pattern.move 0 (reading.text.reverse ++ before)
                reading.rest := by
            rw [(hmarked _ reading hread).1, scanFrom_take hpiece (hmarked.move_eq_take hread)]
          rw [hscan] at h
          obtain ⟨hinside, hothers⟩ := List.forall_mem_cons.mp h
          -- The piece begins in the front part, so it also ends there and is read there.
          have hfits : reading.text.length ≤ front.length := by
            have hpositive := List.length_pos_iff.mpr hne
            dsimp only at hinside
            omega
          obtain ⟨later, rfl, hrest, hfront⟩ := hreads.exists_of_length_le hread hfits
          have hshorter : later.length < length := by
            have hpositive := List.length_pos_iff.mpr hpiece
            rw [← hlength, List.length_append]
            omega
          have hbehind : (reading.text.reverse ++ before).length + later.length =
              before.length + (reading.text ++ later).length := by
            simp only [List.length_append, List.length_reverse]
            omega
          rw [hrest] at hothers
          rw [removeFrom_of_some hmarked hread, removeFrom_of_some hmarked hfront, hrest]
          exact ih later.length hshorter (reading.text.reverse ++ before) later (hbehind ▸ hothers) rfl

end Declaration

/-! ### Comments on one line -/

namespace Comment

open Pattern (Reads)

/-- The comments that lie on one line, as a scan of the whole text finds them. -/
def inlineSites (text : Text) : List (Site Reading) :=
  Pattern.occurrences inlinePattern text

/-- The form of a comment that lies on one line. -/
structure InlineForm (lead value tail : Text) : Prop where
  form : Form lead value tail
  feed : '\n' ∉ value

theorem inlinePattern_reads : Reads inlinePattern InlineForm := by
  intro text reading
  rw [inlinePattern, Option.filter_eq_some_iff, pattern_reads text reading]
  constructor
  · rintro ⟨⟨hform, htext⟩, hfeed⟩
    exact ⟨⟨hform, by simpa using hfeed⟩, htext⟩
  · rintro ⟨⟨hform, hfeed⟩, htext⟩
    exact ⟨⟨hform, htext⟩, by simpa using hfeed⟩

theorem marked_inlinePattern : Pattern.Marked '/' inlinePattern :=
  inlinePattern_reads.marked fun hform => ⟨['*'], hform.form.closer⟩

variable {text front back : Text} {site : Site Reading}

theorem slashes_of_mem_inlineSites (h : site ∈ inlineSites text) :
    ∃ inner, site.content.text = '/' :: inner ++ ['/'] := by
  obtain ⟨ahead, -, hreading⟩ := Pattern.eq_some_of_mem_occurrences h
  have hform := (inlinePattern_reads.form_of_eq_some hreading).form
  exact ⟨'*' :: site.content.value ++ ['*'], by simp [Reading.text, hform.opener, hform.closer]⟩

theorem stop_le_of_mem_inlineSites (h : site ∈ inlineSites (front ++ back))
    (hback : '/' ∉ back) : site.before.length + site.content.text.length ≤ front.length := by
  by_contra hstop
  obtain ⟨inner, hinner⟩ := slashes_of_mem_inlineSites h
  have hlength := congrArg List.length hinner
  rw [List.length_append, List.length_singleton] at hlength
  have hindex : ('/' :: inner).length < site.content.text.length := by omega
  have hlast := marked_inlinePattern.getElem?_of_mem_occurrences h hindex
  rw [hinner, List.getElem?_concat_length, List.getElem?_append_right (by omega)] at hlast
  exact hback (List.mem_of_getElem? hlast)

theorem length_le_of_mem_inlineSites (h : site ∈ inlineSites (front ++ back))
    (hfront : '/' ∉ front) : front.length ≤ site.before.length := by
  by_contra hstart
  obtain ⟨inner, hinner⟩ := slashes_of_mem_inlineSites h
  have hindex : 0 < site.content.text.length := by simp [hinner]
  have hfirst := marked_inlinePattern.getElem?_of_mem_occurrences h hindex
  rw [hinner, Nat.add_zero, List.getElem?_append_left (by omega)] at hfirst
  exact hfront (List.mem_of_getElem? hfirst)

theorem mem_of_mem_inlineSites {c : Char} (h : site ∈ inlineSites (front ++ c :: back))
    (hstart : site.before.length ≤ front.length)
    (hstop : front.length < site.before.length + site.content.text.length) : c ∈ site.content.text := by
  have hindex : front.length - site.before.length < site.content.text.length := by omega
  have hacross := marked_inlinePattern.getElem?_of_mem_occurrences h hindex
  rw [Nat.add_sub_cancel' hstart, List.getElem?_append_right (le_refl _), Nat.sub_self] at hacross
  exact List.mem_of_getElem? hacross.symm

end Comment

/-! ### Declarations of a block -/

namespace Declaration

variable {text body front back : Text}

theorem stripComments_append (front back : Text)
    (h : ∀ site ∈ Comment.inlineSites (front ++ back), site.before.length < front.length →
      site.before.length + site.content.text.length ≤ front.length) :
    stripComments (front ++ back) = stripComments front ++ stripComments back :=
  removeFrom_append Comment.inlinePattern_reads Comment.marked_inlinePattern [] front back
    (by simpa [Comment.inlineSites, Pattern.occurrences, scan] using h)

/-- White space around a text makes no difference to the comments in it. -/
theorem trim_stripComments_trim (text : Text) :
    (stripComments text.trim).trim = (stripComments text).trim := by
  have hslash : ∀ {pad : Text}, Text.Space pad → '/' ∉ pad := fun hpad =>
    Text.not_mem_of_forall hpad (by decide)
  have hkeep : ∀ {pad : Text}, Text.Space pad → stripComments pad = pad := fun hpad =>
    stripComments_eq (not_pair_of_not_mem (hslash hpad))
  obtain ⟨lead, trail, hlead, htrail, htext⟩ := text.exists_pads
  have hfront : stripComments (lead ++ (text.trim ++ trail)) =
      stripComments lead ++ stripComments (text.trim ++ trail) :=
    stripComments_append _ _ fun site hsite hstart =>
      absurd (Comment.length_le_of_mem_inlineSites hsite (hslash hlead)) (not_le.mpr hstart)
  have hback : stripComments (text.trim ++ trail) = stripComments text.trim ++ stripComments trail :=
    stripComments_append _ _ fun site hsite _ =>
      Comment.stop_le_of_mem_inlineSites hsite (hslash htrail)
  have hstrip : stripComments text = lead ++ stripComments text.trim ++ trail := by
    calc stripComments text = stripComments (lead ++ (text.trim ++ trail)) := by
          rw [← List.append_assoc, ← htext]
      _ = lead ++ stripComments text.trim ++ trail := by
          rw [hfront, hback, hkeep hlead, hkeep htrail, List.append_assoc]
  rw [hstrip, Text.trim_pad_space hlead htrail]

/-- A semicolon parts a text if no comment in it holds one. -/
theorem stripComments_append_cons
    (h : ∀ site ∈ Comment.inlineSites (front ++ ';' :: back), ';' ∉ site.content.text) :
    stripComments (front ++ ';' :: back) = stripComments front ++ ';' :: stripComments back ∧
      ∀ site ∈ Comment.inlineSites back, ';' ∉ site.content.text := by
  have hinside : ∀ site ∈ Comment.inlineSites (front ++ ';' :: back),
      site.before.length < front.length →
        site.before.length + site.content.text.length ≤ front.length :=
    fun site hsite hstart => not_lt.mp fun hstop =>
      h site hsite (Comment.mem_of_mem_inlineSites hsite (le_of_lt hstart) hstop)
  have hnone : Comment.inlinePattern (';' :: back) = none := rfl
  refine ⟨(stripComments_append front _ hinside).trans (congrArg _ (removeFrom_of_none hnone)),
    fun site hsite => ?_⟩
  have hsuffix := Comment.marked_inlinePattern.scanFrom_isSuffix front (';' :: back) hinside
  rw [Pattern.scanFrom_of_none hnone] at hsuffix
  have hcontent : site.content ∈ (Comment.inlineSites back).map Site.content :=
    List.mem_map_of_mem hsite
  rw [Comment.inlineSites, Pattern.occurrences, scan,
    scanFrom_contents _ 0 [] (';' :: front.reverse)] at hcontent
  obtain ⟨same, hsame, heq⟩ := List.mem_map.mp hcontent
  exact heq ▸ h same (hsuffix.subset hsame)

/-- Comments without semicolons are removed piece by piece. -/
theorem pieces_stripComments (h : ∀ site ∈ Comment.inlineSites body, ';' ∉ site.content.text) :
    Text.pieces ';' (stripComments body) = (Text.pieces ';' body).map stripComments := by
  have hstripped : ∀ {text : Text}, ';' ∉ text → ';' ∉ stripComments text := fun htext hmem =>
    htext (stripComments_subset _ hmem)
  induction body using Text.pieces_induction ';' with
  | hlast body hbody =>
      rw [Text.pieces_of_not_mem hbody, Text.pieces_of_not_mem (hstripped hbody), List.map_singleton]
  | hpiece front rest hfront ih =>
      obtain ⟨hstrip, hrest⟩ := stripComments_append_cons h
      rw [hstrip, Text.pieces_append_cons (hstripped hfront), Text.pieces_append_cons hfront,
        List.map_cons, ih hrest]

theorem ofPiece?_nil : ofPiece? [] = none :=
  rfl

/-- A block is read piece by piece. A piece that is empty has no declaration, so none needs to be left
out for that. -/
theorem split_eq_filterMap (body : Text) :
    split body = (Text.pieces ';' body).filterMap fun piece => ofPiece? piece.trim := by
  rw [split, segments, List.filterMap_filter, List.filterMap_map]
  refine List.filterMap_congr fun piece _ => ?_
  cases hpiece : Text.trim piece <;> simp [hpiece, ofPiece?_nil]

theorem splitStripped_eq_filterMap (body : Text) : splitStripped body =
    (Text.pieces ';' body).filterMap fun piece => ofPiece? (stripComments piece).trim := by
  rw [splitStripped, segments, List.filterMap_filter, List.filterMap_map]
  refine List.filterMap_congr fun piece _ => ?_
  have hstrip := trim_stripComments_trim piece
  cases hpiece : Text.trim piece with
  | nil =>
      have hnothing : (stripComments piece).trim = [] := by
        rw [← hstrip, hpiece]
        rfl
      simp [hpiece, hnothing, ofPiece?_nil]
  | cons c rest =>
      rw [hpiece] at hstrip
      cases hstripped : (stripComments piece).trim <;> simp [hpiece, hstrip, hstripped, ofPiece?_nil]

/-- **Stripping and splitting.** If no comment of a block that lies on one line holds a semicolon, the
declarations read without the comments of each piece are those of the block without these comments. -/
theorem splitStripped_eq_split_outside
    (h : ∀ site ∈ Comment.inlineSites body, ';' ∉ site.content.text) :
    splitStripped body = split (body.outside (Comment.inlineSites body)) := by
  have hstrip : body.outside (Comment.inlineSites body) = stripComments body :=
    (removeFrom_eq_outside Comment.marked_inlinePattern body).symm
  rw [hstrip, splitStripped_eq_filterMap, split_eq_filterMap, pieces_stripComments h,
    List.filterMap_map]
  rfl

/-- A block with three comments that lie on one line, one that does not, and one that never ends. -/
def commented : Text :=
  "/* a */ b/* c\n; */: d/**/ e; /* f */;/*/ g: h".toList

theorem splitStripped_commented :
    (Comment.inlineSites commented).length = 3 ∧
      splitStripped commented = split (commented.outside (Comment.inlineSites commented)) ∧
      splitStripped commented =
        [⟨"*/".toList, "d e".toList⟩, ⟨"/*/ g".toList, "h".toList⟩] :=
  ⟨by decide, splitStripped_eq_split_outside (by decide), by decide⟩

end Declaration

end Stylesheet
