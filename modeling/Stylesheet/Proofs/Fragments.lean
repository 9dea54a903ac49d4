import Stylesheet.Config
import Stylesheet.Proofs.ByteOffsets
import Stylesheet.Proofs.ElementReading
import Stylesheet.Proofs.ParseDepth
import Stylesheet.Proofs.SheetKinds

/-!
# Fragments

Every nested at-rule of a document, however deep, is the document of a fragment: a piece of the
source that stands inside the media block around it and ends with the brace that closes its own.
The scan for style rules passes over a fragment as a whole, so a nested at-rule has none.
-/

namespace Stylesheet

/-- A piece of a media block that is an at-rule up to the brace that closes it. -/
structure Fragment (block fragment : Text) : Prop where
  inside : ∃ before after, before ≠ [] ∧ after ≠ [] ∧ block = before ++ fragment ++ after
  begins : fragment.head? = some '@'
  closes : ∃ header opened, fragment = header ++ '{' :: opened ∧ '{' ∉ header ∧
    closingBrace? fragment header.byteSize = some (fragment.byteSize - 1)

theorem Fragment.length_lt {block fragment : Text} (h : Fragment block fragment) :
    fragment.length < block.length := by
  obtain ⟨before, after, hbefore, hafter, rfl⟩ := h.inside
  have hlength := List.length_pos_iff.mpr hbefore
  simp only [List.length_append]
  omega

theorem Fragment.isInfix {block fragment : Text} (h : Fragment block fragment) :
    fragment <:+: block := by
  obtain ⟨before, after, -, -, rfl⟩ := h.inside
  exact ⟨before, after, rfl⟩

namespace MediaRule

variable {run interior : Text}

/-- The closing brace of an at-rule's text is its last character. -/
theorem closingBrace?_atRuleText (hinterior : Enclosed interior) :
    closingBrace? (atRuleText run interior) (Text.byteSize ('@' :: run)) =
      some (Text.byteSize (atRuleText run interior) - 1) := by
  have htext : atRuleText run interior = '@' :: run ++ '{' :: (interior ++ ['}']) := by
    simp [atRuleText]
  have hsize : Text.byteSize (atRuleText run interior) - 1 =
      Text.byteSize ('@' :: run) + Text.byteSize ('{' :: interior) := by
    have hbrace : Text.byteSize ['}'] = 1 := by decide
    rw [atRuleText, Text.byteSize_append, Text.byteSize_append, hbrace]
    omega
  rw [hsize, htext]
  exact closingBrace?_opening hinterior ('@' :: run)

theorem styleRules_atRuleText (hrun : ∀ c ∈ run, MediaBlock.isHeaderChar c = true)
    (hinterior : Enclosed interior) : StyleRule.records (atRuleText run interior) = [] := by
  have hfront : ∀ c ∈ '@' :: run, (c ≠ ';' && c ≠ '{') = true := by
    intro c hc
    rcases List.mem_cons.mp hc with rfl | hc
    · decide
    · have hchar := hrun c hc
      have hsemicolon : c ≠ ';' := by
        rintro rfl
        exact absurd hchar (by decide)
      have hopening : c ≠ '{' := by
        rintro rfl
        exact absurd hchar (by decide)
      simp [hsemicolon, hopening]
  have hpasses : Passes StyleRule.move (atRuleText run interior) := by
    refine StyleRule.passes_atRule fun rest => atRule?_eq_some_iff.mpr ?_
    refine ⟨'@' :: run, hfront, .inr ⟨interior ++ ['}'] ++ rest, interior, ?_, ?_, ?_⟩⟩
    · simp
    · exact interior?_append hinterior rest
    · simp
  rw [StyleRule.records, hpasses.scan_eq_nil, List.map_nil]

end MediaRule

namespace MediaBlock

/-- A nested at-rule is kept as the text of its block, from the at sign to the closing brace. -/
theorem atRuleText_of_ruleOf? {text nested : Text} {inner : Block} {length : Nat}
    (hmove : Block.move innerHeader text = .take inner length)
    (hrule : ruleOf? inner = some (.atRule nested)) :
    nested = inner.text ∧ ∃ run interior, nested = MediaRule.atRuleText run interior ∧
      (∀ c ∈ run, isHeaderChar c = true) ∧ Enclosed interior := by
  obtain ⟨hheader, ⟨rest, hinterior⟩, -⟩ := Block.move_eq_take_iff.mp hmove
  have hform := innerHeader_reads.form_of_eq_some hheader
  have hclosed : Enclosed inner.interior := enclosed_of_interior? hinterior
  obtain ⟨hat, hnested⟩ : inner.header.value.trim.head? = some '@' ∧ nested = inner.text := by
    unfold ruleOf? at hrule
    split at hrule
    · contradiction
    · next hvalue =>
        rw [hvalue]
        exact ⟨rfl, (MediaRule.atRule.inj (Option.some.inj hrule)).symm⟩
    · cases hrule
  rcases hform.run with ⟨run, hvalue, -, hrun⟩ | ⟨-, hselector⟩
  · refine ⟨hnested, run, inner.interior, ?_, hrun, hclosed⟩
    rw [hnested, Block.text, Reading.text, hform.lead_eq, hform.tail_eq, hvalue]
    simp [MediaRule.atRuleText]
  · -- A selector holds no at sign, so it does not begin with one when it is trimmed.
    obtain ⟨value, htrim⟩ := List.head?_eq_some_iff.mp hat
    have hmem : '@' ∈ inner.header.value := by
      apply (Text.trim_isInfix _).subset
      rw [htrim]
      exact List.mem_cons_self
    exact absurd (hselector '@' hmem) (by decide)

/-- The at-rules nested in a media block are fragments of its text. -/
theorem fragment_of_mem_rules {text nested : Text} {block : Block} {length : Nat}
    (hmove : Block.move header text = .take block length)
    (hnested : .atRule nested ∈ (ofBlock block).rules) :
    Fragment block.text nested ∧ StyleRule.records nested = [] := by
  obtain ⟨inner, hinner, hrule⟩ := List.mem_filterMap.mp hnested
  obtain ⟨site, hsite, rfl⟩ := List.mem_map.mp hinner
  obtain ⟨skipped, ahead, size, hinterior, -, hinnerMove⟩ := mem_scan hsite
  obtain ⟨rest, hahead, -⟩ := Block.text_eq_append innerHeader_reads hinnerMove
  obtain ⟨hpiece, run, body, htext, hrun, hclosed⟩ := atRuleText_of_ruleOf? hinnerMove hrule
  have htail := (header_reads.form_of_eq_some (Block.move_eq_take_iff.mp hmove).1).tail_eq
  refine ⟨⟨?_, ?_, ?_⟩, ?_⟩
  · refine ⟨block.header.text ++ skipped, rest ++ ['}'], ?_, ?_, ?_⟩
    · simp [Reading.text, htail]
    · simp
    · rw [Block.text, hinterior, hahead, ← hpiece]
      simp only [List.append_assoc]
  · rw [htext]
    rfl
  · refine ⟨'@' :: run, body ++ ['}'], ?_, ?_, ?_⟩
    · rw [htext]
      simp [MediaRule.atRuleText]
    · intro hmem
      rcases List.mem_cons.mp hmem with heq | hmem
      · exact absurd heq (by decide)
      · exact absurd (hrun '{' hmem) (by decide)
    · rw [htext]
      exact MediaRule.closingBrace?_atRuleText hclosed
  · rw [htext]
    exact MediaRule.styleRules_atRuleText hrun hclosed

end MediaBlock

namespace Document

/-- The documents that a document is made of: itself, and `depth` levels below it the nested
at-rules of its media blocks. -/
inductive Holds (document : Document) : (depth : Nat) → Document → Prop
  | whole : Holds document 0 document
  | atRule {depth : Nat} {outer nested : Document} {record : Record (MediaBlock Document)}
      (outer_mem : Holds document depth outer) (record_mem : record ∈ outer.sheet.media.getD [])
      (nested_mem : .atRule nested ∈ record.content.rules) : Holds document (depth + 1) nested

/-- The record of a media block that is found in a text at a depth. -/
def mediaRecord (cap : Option Nat) (depth : Nat) (site : Site Block) :
    Record (MediaBlock Document) :=
  ((site.map MediaBlock.ofBlock).record .strict).map (MediaBlock.expand (parseNested cap (depth + 1)))

variable {cap : Option Nat} {depth : Nat} {text : Text} {nested : Document}

theorem media_parseAt (cap : Option Nat) (depth : Nat) (text : Text) :
    (parseAt cap depth text).sheet.media.getD [] =
      (Block.sites MediaBlock.header text).map (mediaRecord cap depth) := by
  rw [sheet_parseAt, getD_present, MediaBlock.records, List.map_map]
  rfl

theorem styles_parseAt (cap : Option Nat) (depth : Nat) (text : Text) :
    (parseAt cap depth text).sheet.styles = present (StyleRule.records text) := by
  rw [sheet_parseAt]

/-- One level: a nested at-rule is the document of a fragment of its media block. -/
theorem exists_fragment_of_mem {site : Site Block} (hsite : site ∈ Block.sites MediaBlock.header text)
    (hnested : .atRule nested ∈ (mediaRecord cap depth site).content.rules) :
    ∃ fragment, Fragment site.content.text fragment ∧
      parseNested cap (depth + 1) fragment = some nested ∧ nested.sheet.styles = none := by
  obtain ⟨rule, hrule, hexpand⟩ := List.mem_filterMap.mp hnested
  obtain ⟨-, ahead, length, -, -, hmove⟩ := mem_scan hsite
  cases rule with
  | style rule => cases hexpand
  | atRule fragment =>
      obtain ⟨document, hdocument, hatRule⟩ := Option.map_eq_some_iff.mp hexpand
      obtain rfl := MediaRule.atRule.inj hatRule
      obtain ⟨hfragment, hstyles⟩ := MediaBlock.fragment_of_mem_rules hmove hrule
      refine ⟨fragment, hfragment, hdocument, ?_⟩
      rw [parseNested] at hdocument
      split at hdocument
      · rw [← Option.some.inj hdocument, styles_parseAt, hstyles]
        rfl
      · contradiction

theorem text_infix_of_mem_sites {site : Site Block}
    (hsite : site ∈ Block.sites MediaBlock.header text) : site.content.text <:+: text := by
  obtain ⟨passed, ahead, length, rfl, -, hmove⟩ := mem_scan hsite
  obtain ⟨rest, rfl, -⟩ := Block.text_eq_append MediaBlock.header_reads hmove
  exact ⟨passed, rest, by rw [List.append_assoc]⟩

/-- All levels: whatever a document holds was parsed from a piece of its source. -/
theorem Holds.exists_text {source : Text} {inner : Document}
    (h : (parseAt cap 0 source).Holds depth inner) :
    ∃ text, text <:+: source ∧ inner = parseAt cap depth text := by
  induction h with
  | whole => exact ⟨source, List.infix_rfl, rfl⟩
  | atRule _ hrecord hnested ih =>
      obtain ⟨text, htext, rfl⟩ := ih
      rw [media_parseAt] at hrecord
      obtain ⟨site, hsite, rfl⟩ := List.mem_map.mp hrecord
      obtain ⟨fragment, hfragment, hparse, -⟩ := exists_fragment_of_mem hsite hnested
      have hinside := hfragment.isInfix.trans (text_infix_of_mem_sites hsite)
      exact ⟨fragment, hinside.trans htext, parseAt_of_parseNested hparse⟩

end Document

/-- **Nested at-rules are pieces of the source.** An at-rule of a media block, at any depth of a
parsed document, is what is parsed at that depth from a fragment of the block, and it has no style
rules. The block is found in the text that the document around it was parsed from. -/
theorem Config.exists_fragment_of_atRule (config : Config) (source : Text) {depth : Nat}
    {outer nested : Document} {record : Record (MediaBlock Document)}
    (houter : (config.parse source).Holds depth outer)
    (hrecord : record ∈ outer.sheet.media.getD [])
    (hnested : .atRule nested ∈ record.content.rules) :
    ∃ text site fragment, text <:+: source ∧
      outer = Document.parseAt config.maxNesting depth text ∧
      site ∈ Block.sites MediaBlock.header text ∧
      record = Document.mediaRecord config.maxNesting depth site ∧
      site.content.text <:+: text ∧ fragment <:+: source ∧
      Fragment site.content.text fragment ∧ fragment.length < site.content.text.length ∧
      Document.parseNested config.maxNesting (depth + 1) fragment = some nested ∧
      nested.sheet.styles = none := by
  obtain ⟨text, htext, rfl⟩ := houter.exists_text
  rw [Document.media_parseAt] at hrecord
  obtain ⟨site, hsite, rfl⟩ := List.mem_map.mp hrecord
  obtain ⟨fragment, hfragment, hparse, hstyles⟩ := Document.exists_fragment_of_mem hsite hnested
  have hblock := Document.text_infix_of_mem_sites hsite
  exact ⟨text, site, fragment, htext, rfl, hsite, rfl, hblock,
    (hfragment.isInfix.trans hblock).trans htext, hfragment, hfragment.length_lt, hparse, hstyles⟩

/-- The record of a media block on the first line. -/
def Record.ofMedia (query : Text) (rules : List (MediaRule Document)) :
    Record (MediaBlock Document) :=
  ⟨none, 1, ⟨query, rules⟩⟩

/-- Three media blocks, one in the other. -/
def tiered : Text :=
  "@media a{@media b{@media c{d{e:f}}}}".toList

def innermost : Document :=
  ⟨{ media := some [.ofMedia "c".toList [.style ⟨"d".toList, [⟨"e".toList, "f".toList⟩]⟩]] }⟩

def middle : Document :=
  ⟨{ media := some [.ofMedia "b".toList [.atRule innermost]] }⟩

theorem parse_tiered : ({} : Config).parse tiered =
    ⟨{ media := some [.ofMedia "a".toList [.atRule middle]] }⟩ :=
  rfl

theorem holds_tiered : (({} : Config).parse tiered).Holds 1 middle := by
  have hrecord : Record.ofMedia "a".toList [.atRule middle] ∈
      (({} : Config).parse tiered).sheet.media.getD [] := by
    rw [parse_tiered]
    exact List.mem_cons_self
  exact .atRule .whole hrecord List.mem_cons_self

theorem Config.exists_fragment_tiered :
    (({} : Config).parse tiered).Holds 1 middle ∧
      ∃ text site fragment, text <:+: tiered ∧ middle = Document.parseAt none 1 text ∧
        site ∈ Block.sites MediaBlock.header text ∧
        .ofMedia "b".toList [.atRule innermost] = Document.mediaRecord none 1 site ∧
        site.content.text <:+: text ∧ fragment <:+: tiered ∧
        Fragment site.content.text fragment ∧ fragment.length < site.content.text.length ∧
        Document.parseNested none 2 fragment = some innermost ∧ innermost.sheet.styles = none :=
  ⟨holds_tiered, exists_fragment_of_atRule {} tiered holds_tiered List.mem_cons_self
    List.mem_cons_self⟩

end Stylesheet
