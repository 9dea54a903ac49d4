import Mathlib.Data.List.Forall2
import Stylesheet.Proofs.ByteOffsets
import Stylesheet.Proofs.ParsedRules

/-!
# Places of selectors

The line and the comments of a style rule are those of the place at which the scan stands. It has
passed over the ASCII blanks there, but a selector is trimmed of all white space. So the selector
begins at that place exactly if no other white space stands there, and then it is no at-rule and no
comment.
-/

namespace Stylesheet

namespace StyleRule

variable {ahead : Text} {rule : Rule} {length : Nat}

/-- A rule begins with none of the marks that the scan looks for before. -/
theorem marks_of_move (h : move ahead = .take rule length) :
    (∀ c ∈ ahead.head?, isBlank c = false) ∧ ¬['@'] <+: ahead ∧ ¬"/*".toList <+: ahead := by
  have hpass : ∀ piece, passOver piece ≠ .take rule length := by
    rintro (_ | _) heq <;> cases heq
  refine ⟨?_, ?_, ?_⟩
  · intro c hc
    obtain ⟨rest, rfl⟩ := List.head?_eq_some_iff.mp hc
    rw [Bool.eq_false_iff]
    intro hblank
    rw [move_blank hblank] at h
    contradiction
  · rintro ⟨rest, rfl⟩
    exact hpass _ h
  · rintro ⟨rest, rfl⟩
    exact hpass _ h

/-- White space beyond ASCII may stand where a rule begins, and the selector stands behind it. -/
theorem exists_space_of_move (h : move ahead = .take rule length) :
    ∃ lead, Text.Space lead ∧ lead ++ rule.selector <+: ahead ∧ rule.selector ≠ [] ∧
      Text.Trimmed rule.selector := by
  obtain ⟨front, opened, interior, rest, rfl, -, hne, -, rfl⟩ :=
    exists_of_readRule (readRule_of_move h)
  obtain ⟨lead, hlead, hprefix⟩ := Text.exists_space_append_trim front
  exact ⟨lead, hlead, hprefix.trans (List.prefix_append _ _), hne, Text.trim_trim front⟩

/-- The selector begins where the rule begins unless white space stands there. -/
theorem selector_isPrefix_iff (h : move ahead = .take rule length) :
    rule.selector <+: ahead ↔ ∀ c ∈ ahead.head?, isSpace c = false := by
  obtain ⟨lead, hlead, hprefix, hne, htrimmed⟩ := exists_space_of_move h
  obtain ⟨d, selector, hselector⟩ := List.exists_cons_of_ne_nil hne
  rw [hselector] at htrimmed hprefix ⊢
  constructor
  · rintro ⟨rest, rfl⟩ c hc
    obtain rfl : d = c := Option.some.inj hc
    exact htrimmed.head
  · intro hhead
    cases lead with
    | nil => exact hprefix
    | cons c lead =>
        obtain ⟨rest, rfl⟩ := hprefix
        have hspace := hlead c List.mem_cons_self
        rw [hhead c rfl] at hspace
        contradiction

/-- **Places of selectors.** The line and the comments of a rule are taken at the place at which the
scan finds it. No ASCII blank stands there, and behind other white space its selector. The selector
begins at that place exactly if no white space stands there at all, and then it does not begin like
an at-rule or a comment. -/
theorem forall₂_selector (source : Text) :
    List.Forall₂ (fun site record => ∃ ahead, source = site.before.reverse ++ ahead ∧
        record.line = source.lineNumber site.offset ∧
        record.comment = attachedComments source site.offset .strict ∧
        (∀ c ∈ ahead.head?, isBlank c = false) ∧
        (∃ lead, Text.Space lead ∧ lead ++ record.content.selector <+: ahead) ∧
        (record.content.selector <+: ahead ↔ ∀ c ∈ ahead.head?, isSpace c = false) ∧
        (record.content.selector <+: ahead →
          ¬['@'] <+: record.content.selector ∧ ¬"/*".toList <+: record.content.selector))
      (scan move source) (records source) := by
  refine List.forall₂_map_right_iff.mpr (List.forall₂_same.mpr fun site hsite => ?_)
  obtain ⟨passed, ahead, length, rfl, hbefore, hmove⟩ := mem_scan hsite
  have hoffset : site.offset = passed.byteSize := by
    rw [Site.offset, hbefore, Text.byteSize_reverse]
  obtain ⟨hblank, hat, hopener⟩ := marks_of_move hmove
  obtain ⟨lead, hlead, hprefix, -, -⟩ := exists_space_of_move hmove
  refine ⟨ahead, ?_, ?_, ?_, hblank, ⟨lead, hlead, hprefix⟩, selector_isPrefix_iff hmove,
    fun hselector => ⟨fun h => hat (h.trans hselector), fun h => hopener (h.trans hselector)⟩⟩
  · rw [hbefore, List.reverse_reverse]
  · rw [hoffset, Text.lineNumber_append, Site.record, Site.line, hbefore, List.count_reverse]
  · rw [hoffset, attachedComments_append, Site.record, hbefore]

/-- A stray brace, a comment, an at-rule and a rule. -/
def cluttered : Text :=
  "\x7b/* a */\n@b;\t.c d\u00a0\x7b\x7d".toList

theorem forall₂_selector_cluttered :
    (records cluttered).map (fun record => record.content.selector) = [".c d".toList] ∧
      (∀ c ∈ (".c d\u00a0\x7b\x7d".toList).head?, isSpace c = false) ∧
      ".c d".toList <+: ".c d\u00a0\x7b\x7d".toList ∧
      ¬['@'] <+: ".c d".toList ∧ ¬"/*".toList <+: ".c d".toList := by
  have hhead : ∀ c ∈ (".c d\u00a0\x7b\x7d".toList).head?, isSpace c = false := by
    rintro c ⟨⟩
    decide
  have hscan : scan move cluttered =
      [⟨("\x7b/* a */\n@b;\t".toList).reverse, ⟨".c d".toList, []⟩⟩] := rfl
  have hall := forall₂_selector cluttered
  rw [records, hscan] at hall
  obtain ⟨⟨ahead, hsource, -, -, -, -, hiff, hmarks⟩, -⟩ := List.forall₂_cons.mp hall
  have hsplit : "\x7b/* a */\n@b;\t".toList ++ ".c d\u00a0\x7b\x7d".toList =
      "\x7b/* a */\n@b;\t".toList ++ ahead := hsource
  obtain rfl := List.append_cancel_left hsplit
  exact ⟨rfl, hhead, hiff.mpr hhead, hmarks (hiff.mpr hhead)⟩

/-- A rule behind a blank that is not of ASCII and a line feed. -/
def wideSpaced : Text :=
  "\u00a0\n.a\x7b\x7d".toList

/-- The rule counts as found at the blank, but its selector begins on the next line. -/
theorem forall₂_selector_wideSpaced_ne :
    (scan move wideSpaced).map Site.offset = [0] ∧
      records wideSpaced = [⟨none, 1, ⟨".a".toList, []⟩⟩] ∧ ¬".a".toList <+: wideSpaced ∧
      wideSpaced = "\u00a0\n".toList ++ ".a\x7b\x7d".toList ∧
      wideSpaced.lineNumber (Text.byteSize "\u00a0\n".toList) = 2 := by
  decide

end StyleRule

end Stylesheet
