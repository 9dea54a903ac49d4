import Mathlib.Data.List.Forall2
import Stylesheet.Config
import Stylesheet.Proofs.ParseDepth
import Stylesheet.Proofs.SkippedRuns

/-!
# Comments of the inventory

The inventory reads the comments of a text forward, and the comments of a record are read back from
the place where the record begins. A comment of a record is one of the inventory if its body holds no
opener and reading back does not come upon a closer that ends no comment.
-/

namespace Stylesheet

open Pattern (Reads Unnested)

/-- The text before each find. -/
def frontsOf {α : Type} (sites : List (Site α)) : List Text :=
  sites.map fun site => site.before.reverse

namespace Kind

/-- How near a comment has to be to a record of the kind. -/
def adjacency : Kind → Adjacency
  | .keyframes => .loose
  | .charset | .imports | .tailwind | .config | .media | .styles => .strict

/-- The text before each record of the kind, for a text that is parsed. -/
def fronts (kind : Kind) (text : Text) : List Text :=
  match kind with
  | .charset => frontsOf (Directive.charset.occurrences text)
  | .imports => frontsOf (Directive.imports.occurrences text)
  | .tailwind => frontsOf (Directive.tailwind.occurrences text)
  | .config => (frontsOf (Directive.config.occurrences text)).take 1
  | .keyframes => frontsOf (Block.sites Keyframes.header text)
  | .media => frontsOf (Block.sites MediaBlock.header text)
  | .styles => frontsOf (scan StyleRule.move text)

end Kind

namespace Sheet

variable {α δ : Type}

def recordComments (records : Option (List (Record α))) : List (Option (List Text)) :=
  (records.getD []).map Record.comment

/-- The comments of the records of a kind, in the order of the sheet. -/
def commentsOf (sheet : Sheet δ) : Kind → List (Option (List Text))
  | .charset => recordComments sheet.charset
  | .imports => recordComments sheet.imports
  | .tailwind => recordComments sheet.tailwind
  | .config => sheet.config.toList.map Record.comment
  | .keyframes => recordComments sheet.keyframes
  | .media => recordComments sheet.media
  | .styles => recordComments sheet.styles

end Sheet

namespace Comment

variable {text body rest : Text}

/-- The form of a comment. -/
structure Form (lead value tail : Text) : Prop where
  opener : lead = ['/', '*']
  body : ¬['*', '/'] <:+: value
  closer : tail = ['*', '/']

theorem pattern_reads : Reads pattern Form := by
  intro text reading
  constructor
  · intro h
    have htext := (pattern_append h []).1
    unfold pattern at h
    split at h
    · next inside =>
        obtain ⟨⟨body, rest⟩, hbody, rfl⟩ := Option.map_eq_some_iff.mp h
        exact ⟨⟨rfl, not_closer_of_body? hbody, rfl⟩, htext⟩
    · contradiction
  · rintro ⟨⟨hopener, hbody, hcloser⟩, rfl⟩
    obtain ⟨lead, value, tail, rest⟩ := reading
    obtain rfl : lead = ['/', '*'] := hopener
    obtain rfl : tail = ['*', '/'] := hcloser
    have hread := body?_append hbody rest
    simp [pattern, Reading.text, hread]

/-- A comment ends with its first closer, so no other comment ends inside of it. -/
theorem unnested_form : Unnested Form := by
  rintro lead value tail lead' value' tail' front back ⟨rfl, hbody, rfl⟩ ⟨rfl, -, rfl⟩ hsplit
  -- The first two characters are the opener; what is left holds no closer but the last one.
  match front with
  | [] => exact .inl rfl
  | [c] => exact absurd (List.cons.inj (List.cons.inj hsplit).2).1 (by decide)
  | c :: d :: front =>
      have hrest : value ++ ['*', '/'] = front ++ ('/' :: '*' :: value' ++ ['*', '/']) ++ back :=
        (List.cons.inj (List.cons.inj hsplit).2).2
      rcases List.eq_nil_or_concat back with hback | ⟨back, e, rfl⟩
      · exact .inr hback
      have hinner : value ++ ['*'] = front ++ ('/' :: '*' :: value' ++ ['*', '/']) ++ back := by
        have hends : value ++ ['*'] ++ ['/'] =
            front ++ ('/' :: '*' :: value' ++ ['*', '/']) ++ back ++ [e] := by
          simpa using hrest
        exact (List.append_inj' hends rfl).1
      have hopen : ¬['*', '/'] <:+: value ++ ['*'] :=
        not_pair_append_cons hbody (by decide) (by decide)
      exact absurd ⟨front ++ '/' :: '*' :: value', back, by rw [hinner]; simp⟩ hopen

theorem steady_move : Steady Reading.value pattern.move :=
  pattern_reads.steady_move unnested_form

theorem strides_move : Strides pattern.move := by
  intro text htext
  right
  cases hpattern : pattern text with
  | none =>
      obtain ⟨c, text, rfl⟩ := List.exists_cons_of_ne_nil htext
      exact ⟨[c], text, List.cons_ne_nil c [], rfl, .inl (Pattern.move_eq_pass hpattern)⟩
  | some reading =>
      have hform := pattern_reads.form_of_eq_some hpattern
      refine ⟨reading.text, reading.rest, ?_, pattern_reads.text_eq hpattern,
        .inr ⟨reading, Pattern.move_eq_take_iff.mpr ⟨hpattern, rfl⟩⟩⟩
      simp [Reading.text, hform.opener]

theorem move_ne_stop (text : Text) : pattern.move text ≠ .stop :=
  Pattern.move_ne_stop pattern text

theorem Form.text_eq {reading : Reading} (h : Form reading.lead reading.value reading.tail) :
    reading.text = (Filler.comment reading.value h.body).text := by
  have htext : reading.text = ['/', '*'] ++ reading.value ++ ['*', '/'] := by
    rw [Reading.text, h.opener, h.closer]
  exact htext

/-- What the inventory does not read as a comment it passes over one character at a time. -/
theorem piece_of_covers {piece : Text} (h : (pattern.move (piece ++ rest)).Covers piece) :
    (∃ c, piece = [c]) ∨ ∃ filler : Filler, piece = filler.text := by
  cases hpattern : pattern (piece ++ rest) with
  | none =>
      have hlength := h.length_eq
      rw [Pattern.move_eq_pass hpattern] at hlength
      exact .inl (List.length_eq_one_iff.mp hlength.symm)
  | some reading =>
      have hmove := Pattern.move_eq_take_iff.mpr ⟨hpattern, rfl⟩
      have htext : reading.text <+: piece ++ rest := ⟨_, (pattern_reads.text_eq hpattern).symm⟩
      have hpiece := h.eq (.inr ⟨reading, hmove⟩) (List.prefix_append piece rest) htext
      exact .inr ⟨_, hpiece.trans (pattern_reads.form_of_eq_some hpattern).text_eq⟩

theorem bare_of_reaches {prior ahead : Text} {run : Run}
    (h : Reaches pattern.move text prior run ahead) (hcloser : ¬['*', '/'] <:+ prior)
    (adjacency : Adjacency) : adjacency.Bare prior.reverse := by
  rcases h.prior_cases with rfl | ⟨front, piece, rest, rfl, -, hother, hcovers⟩
  · exact adjacency.bare_nil
  obtain ⟨c, rfl⟩ := (piece_of_covers hcovers).resolve_right (not_exists.mpr hother)
  have hblank : isBlank c = false := Bool.eq_false_iff.mpr fun hblank => hother (.blank c hblank) rfl
  refine Adjacency.readBack_unclosed (fun d hd => ?_) hcloser
  rw [List.getLast?_concat] at hd
  rwa [← Option.some.inj hd]

/-- Each comment that is skipped is one of the inventory. -/
theorem exists_occurrence {prior ahead : Text} {run : Run}
    (h : Reaches pattern.move text prior run ahead) (hbody : body ∈ run.bodies) :
    ∃ site ∈ pattern.occurrences text, site.content.value = body ∧
      ∃ later : Run, text = site.before.reverse ++ site.content.text ++ later.text ++ ahead := by
  obtain ⟨closer, hfiller⟩ := Run.exists_of_mem_bodies hbody
  obtain ⟨earlier, later, -, hreaches⟩ := h.exists_of_mem hfiller
  obtain ⟨finds, hscan⟩ := hreaches.scan_eq
  have hread : pattern ((Filler.comment body closer).text ++ (later.text ++ ahead)) =
      some ⟨['/', '*'], body, ['*', '/'], later.text ++ ahead⟩ :=
    pattern_reads.of_form ⟨rfl, closer, rfl⟩ _
  rw [scanFrom_take (Filler.text_ne_nil _) (Pattern.move_eq_take_iff.mpr ⟨hread, rfl⟩)] at hscan
  refine ⟨_, hscan ▸ List.mem_append_right finds List.mem_cons_self, rfl, later, ?_⟩
  rw [hreaches.eq_append]
  simp [Filler.text, Reading.text]

/-- What the inventory finds in a front part of a text it finds in the text. -/
theorem exists_occurrence_append {site : Site Reading} (h : site ∈ pattern.occurrences text)
    (more : Text) : ∃ same ∈ pattern.occurrences (text ++ more), same.before = site.before ∧
      same.content.value = site.content.value ∧ same.content.text = site.content.text := by
  have hform : ∀ {text : Text} {site : Site Reading}, site ∈ pattern.occurrences text →
      site.content.text = ['/', '*'] ++ site.content.value ++ ['*', '/'] := by
    intro text site hsite
    obtain ⟨passed, ahead, length, -, -, hmove⟩ := mem_scan hsite
    have hform := pattern_reads.form_of_eq_some (Pattern.move_eq_take_iff.mp hmove).1
    rw [Reading.text, hform.opener, hform.closer]
  have hmapped := (steady_move.scan_isPrefix text more).subset (List.mem_map_of_mem h)
  obtain ⟨same, hsame, heq⟩ := List.mem_map.mp hmapped
  obtain ⟨hbefore, hvalue⟩ := Site.mk.inj heq
  exact ⟨same, hsame, hbefore, hvalue, by rw [hform hsame, hform h, hvalue]⟩

end Comment

/-! ### The comments of records -/

theorem mem_frontsOf {α : Type} {move : Text → Move α} {front text : Text}
    (h : front ∈ frontsOf (scan move text)) : ∃ ahead, text = front ++ ahead := by
  obtain ⟨site, hsite, rfl⟩ := List.mem_map.mp h
  obtain ⟨passed, ahead, length, htext, hbefore, -⟩ := mem_scan hsite
  exact ⟨ahead, by rw [hbefore, List.reverse_reverse, htext]⟩

theorem Kind.mem_fronts {kind : Kind} {front text : Text} (h : front ∈ kind.fronts text) :
    ∃ ahead, text = front ++ ahead := by
  cases kind with
  | config => exact mem_frontsOf (List.mem_of_mem_take h)
  | charset | imports | tailwind | keyframes | media | styles => exact mem_frontsOf h

theorem Sheet.recordComments_present {α β : Type} {adjacency : Adjacency} {make : Site α → Record β}
    (hmake : ∀ site, (make site).comment = adjacency.attached site.before) (sites : List (Site α)) :
    recordComments (present (sites.map make)) =
      (frontsOf sites).map fun front => adjacency.attached front.reverse := by
  rw [recordComments, getD_present, frontsOf, List.map_map, List.map_map]
  refine List.map_congr_left fun site _ => ?_
  simp [hmake]

/-- The comments of a record are read back from the place where it begins. -/
theorem Document.commentsOf_parseAt (cap : Option Nat) (depth : Nat) (text : Text) (kind : Kind) :
    (parseAt cap depth text).sheet.commentsOf kind =
      (kind.fronts text).map fun front => kind.adjacency.attached front.reverse := by
  rw [sheet_parseAt]
  cases kind with
  | charset | imports | tailwind | keyframes | styles =>
      exact Sheet.recordComments_present (fun _ => rfl) _
  | config =>
      change (Directive.records Directive.config text).head?.toList.map Record.comment = _
      rw [Kind.fronts, Directive.records]
      cases Directive.config.occurrences text with
      | nil => rfl
      | cons site sites => simp [frontsOf, Site.record, Site.map, Kind.adjacency]
  | media =>
      rw [MediaBlock.records, List.map_map]
      exact Sheet.recordComments_present (fun _ => rfl) _

/-- **Comments of the inventory.** The text before a record ends with a run of blanks and comments.
If, as far as nothing parts the comments of the run from the record, none of them holds an opener, and
there is no closer before the run where reading back comes to it, then each comment of the record is
one that the inventory finds in the source, and nothing but blanks and comments stands between it and
the record. -/
theorem Config.forall₂_comments_parse (config : Config) (source : Text) (kind : Kind) :
    List.Forall₂ (fun front comment =>
      (∃ prior run tail, Reaches Comment.pattern.move front prior run [] ∧
        kind.adjacency.Nearest run tail) ∧
      ∀ prior run tail, Reaches Comment.pattern.move front prior run [] →
        kind.adjacency.Nearest run tail →
        (∀ body ∈ tail.bodies, ¬['/', '*'] <:+: body) → (tail = run → ¬['*', '/'] <:+ prior) →
          ∀ entry ∈ comment.getD [], ∃ site ∈ Comment.pattern.occurrences source,
            entry = Comment.normalize site.content.value ∧
              ∃ later : Run, front = site.before.reverse ++ site.content.text ++ later.text)
      (kind.fronts source) ((config.parse source).sheet.commentsOf kind) := by
  rw [Config.parse, Document.parse_eq_parseAt, Document.commentsOf_parseAt]
  refine List.forall₂_map_right_iff.mpr (List.forall₂_same.mpr fun front hfront => ⟨?_, ?_⟩)
  · obtain ⟨prior, run, hreaches⟩ :=
      Comment.strides_move.exists_reaches_end Comment.move_ne_stop front
    obtain ⟨tail, htail⟩ := kind.adjacency.exists_nearest run
    exact ⟨prior, run, tail, hreaches, htail⟩
  · intro prior run tail hreaches htail hopener hcloser entry hentry
    have hread := Adjacency.readBack_run htail hopener fun heq =>
      Comment.bare_of_reaches hreaches (hcloser heq) _
    have htext : front = prior ++ run.text := by simpa using hreaches.eq_append
    rw [Adjacency.getD_attached, htext, hread, List.reverse_reverse] at hentry
    obtain ⟨body, hbody, rfl⟩ := List.mem_map.mp hentry
    obtain ⟨site, hsite, rfl, later, hlater⟩ :=
      Comment.exists_occurrence hreaches (Run.bodies_subset htail.suffix hbody)
    obtain ⟨ahead, rfl⟩ := Kind.mem_fronts hfront
    obtain ⟨same, hsame, hbefore, hvalue, hsameText⟩ := Comment.exists_occurrence_append hsite ahead
    refine ⟨same, hsame, by rw [hvalue], later, ?_⟩
    rw [hbefore, hsameText]
    simpa using hlater

def noted : Text :=
  'x' :: fedRun.text ++ "@keyframes c\x7b\x7d".toList

theorem reaches_noted : Reaches Comment.pattern.move ('x' :: fedRun.text) ['x'] fedRun [] := by
  have hother : ∀ filler : Filler, ['x'] ≠ filler.text := by
    rintro (⟨c, hblank⟩ | ⟨body, closer⟩) heq
    · obtain rfl := (List.cons.inj heq).1
      contradiction
    · exact absurd (List.cons.inj heq).1 (by decide)
  have hword : Reaches Comment.pattern.move ('x' :: fedRun.text) ['x'] [] fedRun.text :=
    .element ['x'] (List.cons_ne_nil _ _) hother .start (.inl rfl)
  exact .skip (.blank '\n' rfl) (.skip (.comment " b ".toList (by decide))
    (.skip (.blank '\x0c' rfl) (.skip (.comment "a".toList (by decide)) hword (.inr ⟨_, rfl⟩))
      (.inl rfl)) (.inr ⟨_, rfl⟩)) (.inl rfl)

theorem nearest_noted : Adjacency.loose.Nearest fedRun fedRun where
  suffix := List.suffix_refl fedRun
  unparted := by
    rw [Adjacency.Unparted]
    decide
  longest _ hother _ := hother

theorem Config.forall₂_comments_parse_noted :
    (({} : Config).parse noted).sheet.commentsOf .keyframes = [some ["a".toList, "b".toList]] ∧
      Reaches Comment.pattern.move ('x' :: fedRun.text) ['x'] fedRun [] ∧
      Adjacency.loose.Nearest fedRun fedRun ∧
      (∀ body ∈ fedRun.bodies, ¬['/', '*'] <:+: body) ∧ ¬['*', '/'] <:+ ['x'] ∧
      ∀ entry ∈ ["a".toList, "b".toList], ∃ site ∈ Comment.pattern.occurrences noted,
        entry = Comment.normalize site.content.value ∧
          ∃ later : Run, 'x' :: fedRun.text =
            site.before.reverse ++ site.content.text ++ later.text := by
  have hcomments : (({} : Config).parse noted).sheet.commentsOf .keyframes =
      [some ["a".toList, "b".toList]] := rfl
  have hfronts : Kind.keyframes.fronts noted = ['x' :: fedRun.text] := rfl
  have hopener : ∀ body ∈ fedRun.bodies, ¬['/', '*'] <:+: body := by decide
  have hcloser : ¬['*', '/'] <:+ ['x'] := by decide
  have hall := Config.forall₂_comments_parse {} noted .keyframes
  rw [hfronts, hcomments] at hall
  obtain ⟨⟨-, hentries⟩, -⟩ := List.forall₂_cons.mp hall
  exact ⟨hcomments, reaches_noted, nearest_noted, hopener, hcloser,
    hentries _ _ _ reaches_noted nearest_noted hopener fun _ => hcloser⟩

/-- A closer that ends no comment, behind a comment and a word. -/
def strayClosed : Text :=
  "/* a */ x */ @import 'b';".toList

/-- Read back, the stray closer ends a comment that begins where the comment before it begins. -/
theorem Config.parse_strayClosed_ne :
    (({} : Config).parse strayClosed).sheet.commentsOf .imports = [some ["a */ x".toList]] ∧
      (Comment.pattern.occurrences strayClosed).map (fun site => site.content.value) =
        [" a ".toList] ∧
      ∀ site ∈ Comment.pattern.occurrences strayClosed,
        Comment.normalize site.content.value ≠ "a */ x".toList := by
  decide

end Stylesheet
