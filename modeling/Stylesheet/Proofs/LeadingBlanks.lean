import Stylesheet.Config
import Stylesheet.Proofs.Keywords
import Stylesheet.Proofs.LeadingText
import Stylesheet.Proofs.ParseDepth
import Stylesheet.Proofs.SheetKinds

/-!
# Blanks in front of a source

Blanks in front of a source move its elements to later lines and do nothing else. Nested at-rules are
read from their own text, so their lines stay.
-/

namespace Stylesheet

/-- A record that begins a number of lines later. -/
def Record.shifted {α : Type} (lines : Nat) (record : Record α) : Record α :=
  { record with line := record.line + lines }

namespace Sheet

variable {δ ε : Type}

def shifted (lines : Nat) (sheet : Sheet δ) : Sheet δ where
  charset := sheet.charset.map (List.map (Record.shifted lines))
  imports := sheet.imports.map (List.map (Record.shifted lines))
  tailwind := sheet.tailwind.map (List.map (Record.shifted lines))
  config := sheet.config.map (Record.shifted lines)
  keyframes := sheet.keyframes.map (List.map (Record.shifted lines))
  media := sheet.media.map (List.map (Record.shifted lines))
  styles := sheet.styles.map (List.map (Record.shifted lines))

theorem expand_shifted (f : δ → Option ε) (lines : Nat) (sheet : Sheet δ) :
    (sheet.shifted lines).expand f = (sheet.expand f).shifted lines := by
  unfold expand mapMedia shifted
  cases sheet.media with
  | none => rfl
  | some records => simp [Record.shifted, Record.map]

end Sheet

/-- A document whose own records begin a number of lines later; those of its nested at-rules do
not. -/
def Document.shifted (lines : Nat) (document : Document) : Document :=
  ⟨document.sheet.shifted lines⟩

section Blanks

variable {α β : Type} {move : Text → Move α} {lead : Text}

theorem record_behind_blank (hlead : Blank lead) (adjacency : Adjacency) (site : Site α) :
    (site.behind lead).record adjacency = (site.record adjacency).shifted (lead.count '\n') := by
  have hreverse : Blank lead.reverse := fun c hc => hlead c (List.mem_reverse.mp hc)
  rw [Site.record, Site.line_behind, Site.behind, Adjacency.attached_append_blank hreverse]
  rfl

/-- The records that a scan gives behind blanks which it passes over. -/
theorem records_behind_blank (hlead : Blank lead) (hpasses : Passes move lead) (f : α → β)
    (adjacency : Adjacency) (text : Text) :
    (scan move (lead ++ text)).map (fun site => (site.map f).record adjacency) =
      ((scan move text).map fun site => (site.map f).record adjacency).map
        (Record.shifted (lead.count '\n')) := by
  rw [hpasses.scan_append, List.map_map, List.map_map]
  exact List.map_congr_left fun site _ => record_behind_blank hlead adjacency (site.map f)

end Blanks

section Kinds

variable {lead : Text}

/-- A scan that seeks an at-rule passes over blanks. -/
theorem Seeks.passes_blank {α : Type} {name : Text} {move : Text → Move α} (h : Seeks name move)
    (hlead : Blank lead) : Passes move lead :=
  h.passes (.of_not_mem (Text.not_mem_of_forall hlead rfl))

theorem StyleRule.passes_blank (hlead : Blank lead) : Passes StyleRule.move lead :=
  .of_forall fun c hc _ => StyleRule.move_blank (hlead c hc)

theorem Directive.records_append (hlead : Blank lead) {name : Text} {pattern : Pattern}
    (hpattern : pattern.Names name) (text : Text) :
    records pattern (lead ++ text) =
      (records pattern text).map (Record.shifted (lead.count '\n')) :=
  records_behind_blank hlead (hpattern.seeks_move.passes_blank hlead) Reading.value .strict text

theorem Keyframes.records_append (hlead : Blank lead) (text : Text) :
    records (lead ++ text) = (records text).map (Record.shifted (lead.count '\n')) :=
  records_behind_blank hlead
    ((Kind.pattern?_names .keyframes rfl rfl).seeks_block.passes_blank hlead) ofBlock .loose text

theorem MediaBlock.records_append (hlead : Blank lead) (text : Text) :
    records (lead ++ text) = (records text).map (Record.shifted (lead.count '\n')) :=
  records_behind_blank hlead
    ((Kind.pattern?_names .media rfl rfl).seeks_block.passes_blank hlead) ofBlock .strict text

theorem StyleRule.records_append (hlead : Blank lead) (text : Text) :
    records (lead ++ text) = (records text).map (Record.shifted (lead.count '\n')) :=
  records_behind_blank hlead (passes_blank hlead) id .strict text

theorem Sheet.readKinds_append (hlead : Blank lead) (text : Text) :
    readKinds Kind.all (lead ++ text) =
      (readKinds Kind.all text).shifted (lead.count '\n') := by
  have hcharset := Directive.records_append hlead (Kind.pattern?_names .charset rfl rfl) text
  have himports := Directive.records_append hlead (Kind.pattern?_names .imports rfl rfl) text
  have htailwind := Directive.records_append hlead (Kind.pattern?_names .tailwind rfl rfl) text
  have hconfig := Directive.records_append hlead (Kind.pattern?_names .config rfl rfl) text
  rw [readKinds_all, readKinds_all, hcharset, himports, htailwind, hconfig,
    Keyframes.records_append hlead, MediaBlock.records_append hlead,
    StyleRule.records_append hlead, List.head?_map]
  simp only [present_map, shifted]

end Kinds

/-- **Blanks in front.** A document that is parsed behind blanks is the one parsed without them, with
every record later by the line feeds among the blanks. What is nested in it is the same. -/
theorem Config.parse_blank_append (config : Config) {lead : Text} (hlead : Blank lead)
    (source : Text) :
    config.parse (lead ++ source) = (config.parse source).shifted (lead.count '\n') := by
  rw [parse, parse, Document.parse_eq_parseAt, Document.parse_eq_parseAt, Document.parseAt_eq,
    Document.parseAt_eq, Document.shifted, Sheet.readKinds_append hlead, Sheet.expand_shifted]

/-- All six blanks. -/
def blankLines : Text :=
  " \n\t\r\n\x0b\x0c".toList

/-- A comment at the beginning, and an at-rule nested in a media block. -/
def unindented : Text :=
  "/* a */ @charset 'b';\n@media c\x7b\n@media d\x7be\x7bf:g\x7d\x7d\x7d h\x7b\x7d".toList

theorem Config.parse_blankLines_unindented :
    Blank blankLines ∧ Config.parse {} (blankLines ++ unindented) =
      (Config.parse {} unindented).shifted 2 :=
  ⟨blank_of_all rfl, Config.parse_blank_append {} (blank_of_all rfl) unindented⟩

end Stylesheet
