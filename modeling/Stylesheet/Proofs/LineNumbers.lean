import Stylesheet.Config
import Stylesheet.Proofs.Fragments
import Stylesheet.Proofs.Keywords
import Stylesheet.Proofs.ParsedLines

/-!
# Line numbers

The lines of a kind's records never go down, and the keyword of an at-rule stands on the line of its
record. The lines of a nested at-rule are those of its own text, which is reached in the source by the
way on which the at-rule is reached in the document.
-/

namespace Stylesheet

/-- A word stands on a line of a text, the first of which is line 1. -/
def Text.HasOnLine (text word : Text) (line : Nat) : Prop :=
  ∃ index content, line = index + 1 ∧ text.lines[index]? = some content ∧ word <:+: content

/-- The lines of the records of a kind, for a text. -/
structure Kind.Lined (kind : Kind) (text : Text) (lines : List Nat) : Prop where
  sorted : lines.Pairwise (· ≤ ·)
  bounds : ∀ line ∈ lines, 1 ≤ line ∧ line ≤ text.count '\n' + 1
  keyword : ∀ name ∈ kind.name?, ∀ line ∈ lines, text.HasOnLine ('@' :: name) line

namespace Sheet

variable {δ ε : Type}

/-- The lines of the records of a kind, in the order of the sheet. -/
def linesOf (sheet : Sheet δ) : Kind → List Nat
  | .charset => recordLines sheet.charset
  | .imports => recordLines sheet.imports
  | .tailwind => recordLines sheet.tailwind
  | .config => sheet.config.toList.map Record.line
  | .keyframes => recordLines sheet.keyframes
  | .media => recordLines sheet.media
  | .styles => recordLines sheet.styles

def Lined (sheet : Sheet δ) (text : Text) : Prop :=
  ∀ kind : Kind, kind.Lined text (sheet.linesOf kind)

/-- The at-rule that is a rule of a media block, given the numbers of the block and of the rule. -/
def nestedAt? (sheet : Sheet δ) (place : Nat × Nat) : Option δ :=
  ((sheet.media.getD [])[place.1]?).bind fun record =>
    (record.content.rules[place.2]?).bind MediaRule.nested?

end Sheet

/-- The document that is nested in a document at the end of a path. -/
def Document.descend? : (path : List (Nat × Nat)) → Document → Option Document
  | [], document => some document
  | place :: path, document => (document.sheet.nestedAt? place).bind (descend? path)

/-- The text of the at-rule that is nested in a text at the end of a path. -/
def Text.descend? : (path : List (Nat × Nat)) → Text → Option Text
  | [], text => some text
  | place :: path, text => ((Sheet.readKinds Kind.all text).nestedAt? place).bind (descend? path)

/-! ### The lines of a scan -/

namespace Text

variable {word : Text}

theorem lines_append_of_not_mem (h : '\n' ∉ word) (rest : Text) :
    ∃ line others, lines (word ++ rest) = (word ++ line) :: others := by
  induction word with
  | nil => exact List.exists_cons_of_ne_nil (pieces_ne_nil '\n' rest)
  | cons c word ih =>
      rw [List.mem_cons, not_or] at h
      obtain ⟨line, others, hlines⟩ := ih h.2
      obtain ⟨first, later, htext, hcons⟩ := pieces_cons (Ne.symm h.1) (word ++ rest)
      obtain ⟨rfl, rfl⟩ := List.cons.inj (htext.symm.trans hlines)
      exact ⟨line, later, hcons⟩

/-- A word without line feeds stands on the line on which it begins. -/
theorem hasOnLine_append (h : '\n' ∉ word) (passed rest : Text) :
    HasOnLine (passed ++ (word ++ rest)) word (passed.count '\n' + 1) := by
  induction passed with
  | nil =>
      obtain ⟨line, others, hlines⟩ := lines_append_of_not_mem h rest
      refine ⟨0, word ++ line, rfl, ?_, (List.prefix_append word line).isInfix⟩
      rw [List.nil_append, hlines]
      rfl
  | cons c passed ih =>
      obtain ⟨index, content, hindex, hcontent, hword⟩ := ih
      by_cases hc : c = '\n'
      · subst hc
        refine ⟨index + 1, content, ?_, ?_, hword⟩
        · rw [List.count_cons_self, hindex]
        · rw [List.cons_append, lines, pieces, if_pos rfl, List.getElem?_cons_succ]
          exact hcontent
      · obtain ⟨line, others, htext, hcons⟩ := pieces_cons hc (passed ++ (word ++ rest))
        rw [List.count_cons_of_ne hc, hindex]
        rw [lines, htext] at hcontent
        cases index with
        | zero =>
            obtain rfl := Option.some.inj hcontent
            refine ⟨0, c :: line, rfl, ?_, hword.trans (List.suffix_cons c line).isInfix⟩
            rw [List.cons_append, lines, hcons]
            rfl
        | succ index =>
            refine ⟨index + 1, content, rfl, ?_, hword⟩
            rw [List.cons_append, lines, hcons]
            exact hcontent

end Text

namespace Kind

variable {kind : Kind} {α β : Type} {move : Text → Move α} {text : Text}

theorem feed_not_mem_keyword {name : Text} (h : kind.name? = some name) : '\n' ∉ '@' :: name := by
  cases kind <;> cases h <;> decide

theorem Lined.of_sublist {lines fewer : List Nat} (h : kind.Lined text lines)
    (hfewer : fewer.Sublist lines) : kind.Lined text fewer where
  sorted := h.sorted.sublist hfewer
  bounds line hline := h.bounds line (hfewer.subset hline)
  keyword name hname line hline := h.keyword name hname line (hfewer.subset hline)

/-- A scan that seeks the kind's at-rules finds them in the order of the lines. -/
theorem lined_scan (hseeks : ∀ name ∈ kind.name?, Seeks name move) (text : Text) :
    kind.Lined text ((scan move text).map Site.line) where
  sorted := by
    refine List.pairwise_map.mpr ((pairwise_scanFrom move 0 [] text).imp fun ⟨c, hsuffix⟩ => ?_)
    exact Nat.succ_le_succ (((List.suffix_cons c _).trans hsuffix).sublist.count_le '\n')
  bounds := by
    refine List.forall_mem_map.mpr fun site hsite => ?_
    obtain ⟨passed, ahead, length, rfl, hbefore, -⟩ := mem_scan hsite
    rw [Site.line, hbefore, List.count_reverse, List.count_append]
    exact ⟨Nat.succ_pos _, Nat.succ_le_succ (Nat.le_add_right _ _)⟩
  keyword := by
    intro name hname
    refine List.forall_mem_map.mpr fun site hsite => ?_
    obtain ⟨passed, ahead, length, rfl, hbefore, hmove⟩ := mem_scan hsite
    have hprefix : '@' :: name <+: ahead := by
      by_contra hnot
      rw [hseeks name hname ahead hnot] at hmove
      contradiction
    obtain ⟨rest, rfl⟩ := hprefix
    rw [Site.line, hbefore, List.count_reverse]
    exact Text.hasOnLine_append (feed_not_mem_keyword hname) passed rest

theorem lined_records {make : Site α → Record β} (hline : ∀ site, (make site).line = site.line)
    (hseeks : ∀ name ∈ kind.name?, Seeks name move) (text : Text) :
    kind.Lined text (Sheet.recordLines (present ((scan move text).map make))) := by
  rw [Sheet.recordLines_present hline]
  exact lined_scan hseeks text

variable {pattern : Pattern}

theorem seeks_move (h : kind.pattern? = some pattern) : ∀ name ∈ kind.name?, Seeks name pattern.move :=
  fun _ hname => (kind.pattern?_names h hname).seeks_move

theorem seeks_block (h : kind.pattern? = some pattern) :
    ∀ name ∈ kind.name?, Seeks name (Block.move pattern) :=
  fun _ hname => (kind.pattern?_names h hname).seeks_block

end Kind

theorem Document.lined_parseAt (cap : Option Nat) (depth : Nat) (text : Text) :
    (parseAt cap depth text).sheet.Lined text := by
  intro kind
  rw [sheet_parseAt]
  cases kind with
  | charset => exact Kind.lined_records (fun _ => rfl) (Kind.seeks_move rfl) text
  | imports => exact Kind.lined_records (fun _ => rfl) (Kind.seeks_move rfl) text
  | tailwind => exact Kind.lined_records (fun _ => rfl) (Kind.seeks_move rfl) text
  | config =>
      have hall : Kind.config.Lined text
          ((Directive.records Directive.config text).map Record.line) := by
        rw [Directive.records, List.map_map]
        exact Kind.lined_scan (Kind.seeks_move rfl) text
      refine hall.of_sublist (List.Sublist.map _ ?_)
      cases Directive.records Directive.config text with
      | nil => exact .slnil
      | cons record records => exact (List.nil_sublist records).cons_cons record
  | keyframes => exact Kind.lined_records (fun _ => rfl) (Kind.seeks_block rfl) text
  | media =>
      rw [MediaBlock.records, List.map_map]
      exact Kind.lined_records (fun _ => rfl) (Kind.seeks_block rfl) text
  | styles => exact Kind.lined_records (fun _ => rfl) (fun _ hname => absurd hname (Option.not_mem_none _)) text

/-! ### Nested at-rules and their texts -/

namespace Sheet

variable {δ ε : Type}

theorem mem_nested_of_nestedAt? {sheet : Sheet δ} {place : Nat × Nat} {nested : δ}
    (h : sheet.nestedAt? place = some nested) : nested ∈ sheet.nested := by
  obtain ⟨record, hrecord, hrules⟩ := Option.bind_eq_some_iff.mp h
  obtain ⟨rule, hrule, hnested⟩ := Option.bind_eq_some_iff.mp hrules
  refine List.mem_flatMap.mpr ⟨record, List.mem_of_getElem? hrecord, ?_⟩
  exact List.mem_filterMap.mpr ⟨rule, List.mem_of_getElem? hrule, hnested⟩

theorem nestedAt?_map (f : δ → ε) (sheet : Sheet δ) (place : Nat × Nat) :
    (sheet.map f).nestedAt? place = (sheet.nestedAt? place).map f := by
  have hmedia : (sheet.map f).media.getD [] =
      (sheet.media.getD []).map (Record.map (MediaBlock.map f)) := by
    obtain ⟨_, _, _, _, _, media, _⟩ := sheet
    cases media <;> rfl
  rw [nestedAt?, nestedAt?, hmedia, List.getElem?_map]
  cases (sheet.media.getD [])[place.1]? with
  | none => rfl
  | some record =>
      have hrules : (record.map (MediaBlock.map f)).content.rules[place.2]? =
          record.content.rules[place.2]?.map (MediaRule.map f) := List.getElem?_map
      simp only [Option.map_some, Option.bind_some, hrules]
      cases record.content.rules[place.2]? with
      | none => rfl
      | some rule => exact rule.nested?_map f

end Sheet

namespace Document

variable {cap : Option Nat} {depth : Nat}

/-- A cap keeps the at-rules of a sheet all or drops them all, so the ones it keeps stand where their
texts stand. -/
theorem exists_of_nestedAt?_expand {sheet : Sheet Text} {place : Nat × Nat} {nested : Document}
    (h : (sheet.expand (parseNested cap depth)).nestedAt? place = some nested) :
    ∃ fragment, sheet.nestedAt? place = some fragment ∧ nested = parseAt cap depth fragment := by
  by_cases hkeeps : keeps cap depth = true
  · have hsome : parseNested cap depth = some ∘ parseAt cap depth :=
      funext fun fragment => if_pos hkeeps
    rw [hsome, ← Sheet.map_eq_expand, Sheet.nestedAt?_map] at h
    obtain ⟨fragment, hfragment, hparse⟩ := Option.map_eq_some_iff.mp h
    exact ⟨fragment, hfragment, hparse.symm⟩
  · have hmem := Sheet.mem_nested_of_nestedAt? h
    rw [Sheet.nested_expand] at hmem
    obtain ⟨fragment, -, hparse⟩ := List.mem_filterMap.mp hmem
    rw [parseNested, if_neg hkeeps] at hparse
    contradiction

theorem exists_text_of_descend? {path : List (Nat × Nat)} {text : Text} {inner : Document}
    (h : (parseAt cap depth text).descend? path = some inner) :
    ∃ fragment below, text.descend? path = some fragment ∧ inner = parseAt cap below fragment := by
  induction path generalizing depth text with
  | nil => exact ⟨text, depth, rfl, (Option.some.inj h).symm⟩
  | cons place path ih =>
      obtain ⟨nested, hnested, hinner⟩ := Option.bind_eq_some_iff.mp h
      rw [parseAt_eq] at hnested
      obtain ⟨outer, houter, rfl⟩ := exists_of_nestedAt?_expand hnested
      obtain ⟨fragment, below, hfragment, hparse⟩ := ih hinner
      refine ⟨fragment, below, ?_, hparse⟩
      rw [Text.descend?, houter]
      exact hfragment

end Document

/-- **Line numbers.** At the end of every path in a parsed document, the lines of each kind's records
are in order, they are lines of the text at the end of that path in the source, and the keyword of an
at-rule stands on its line. -/
theorem Config.lined_of_descend?_eq_some (config : Config) (source : Text) {path : List (Nat × Nat)}
    {inner : Document} (h : (config.parse source).descend? path = some inner) :
    ∃ text, source.descend? path = some text ∧ inner.sheet.Lined text := by
  obtain ⟨text, depth, htext, rfl⟩ := Document.exists_text_of_descend? h
  exact ⟨text, htext, Document.lined_parseAt config.maxNesting depth text⟩

/-- A media block that begins on the second line, and in it one with a directive on its own second
line. -/
def lowered : Text :=
  "@import 'a';\n@media b\x7b\n@media c\x7b\n@tailwind d;\x7d\x7d".toList

def loweredMedia : Document :=
  ⟨{ tailwind := some [⟨none, 2, "d".toList⟩], media := some [.ofMedia "c".toList []] }⟩

theorem Config.lined_lowered :
    (({} : Config).parse lowered).descend? [(0, 0)] = some loweredMedia ∧
      ∃ text, lowered.descend? [(0, 0)] = some text ∧ loweredMedia.sheet.Lined text :=
  ⟨rfl, lined_of_descend?_eq_some {} lowered rfl⟩

end Stylesheet
