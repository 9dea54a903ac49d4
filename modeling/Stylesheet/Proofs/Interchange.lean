import Stylesheet.Config
import Stylesheet.Proofs.Fragments
import Stylesheet.Proofs.NestingCap
import Stylesheet.Proofs.ParsedLines
import Stylesheet.Proofs.Redecoding
import Stylesheet.Proofs.RoundTrip

/-!
# Parsing under a cap, and JSON

Each level of nested at-rules puts five brackets around the next, and the innermost document has at
most seven. With a cap of 24 that is 127, as many as the reader takes; one level more is too many.
-/

namespace Stylesheet

namespace Json

variable {α : Type} {levels most : Nat} {json : Json}

theorem Fits.mono (h : json.Fits levels) (hle : levels ≤ most) : json.Fits most :=
  ⟨h.depth_le.trans hle, h.numbers_lt⟩

theorem fits_list {toJson : α → Json} {items : List α}
    (h : ∀ item ∈ items, (toJson item).Fits levels) : (list toJson items).Fits (levels + 1) :=
  fits_array (List.forall_mem_map.mpr h)

end Json

/-! ### The brackets of each part -/

theorem Declaration.fits (declaration : Declaration) : declaration.toJson.Fits 1 := by
  refine Json.fits_object ?_
  rw [List.forall_mem_cons, List.forall_mem_singleton]
  exact ⟨Json.fits_string _, Json.fits_string _⟩

theorem Rule.fits_members (selectorKey declarationsKey : Text) (rule : Rule) :
    ∀ member ∈ rule.members selectorKey declarationsKey, member.2.Fits 2 := by
  rw [members, List.forall_mem_cons, List.forall_mem_singleton]
  exact ⟨Json.fits_string _, Json.fits_list fun declaration _ => declaration.fits⟩

theorem Keyframes.fits_members (keyframes : Keyframes) :
    ∀ member ∈ keyframes.members, member.2.Fits 4 := by
  rw [members, List.forall_mem_cons, List.forall_mem_singleton]
  exact ⟨Json.fits_string _, Json.fits_list fun step _ => Json.fits_object (step.fits_members _ _)⟩

theorem Directive.fits_members (value : Text) :
    ∀ member ∈ Directive.members value, member.2.Fits 1 :=
  List.forall_mem_singleton.mpr (Json.fits_string value)

theorem Record.fits {α : Type} {members : α → List (Text × Json)} {levels : Nat} {record : Record α}
    (hline : record.line < 2 ^ 64) (hlevels : 0 < levels)
    (h : ∀ member ∈ members record.content, member.2.Fits levels) :
    (Record.toJson members record).Fits (levels + 1) := by
  have hcomment : (Json.orNull (Json.list .string) record.comment).Fits levels := by
    cases record.comment with
    | none => exact Json.fits_null
    | some comment =>
        have hlist : (Json.list .string comment).Fits 1 :=
          Json.fits_list fun text _ => Json.fits_string text
        exact hlist.mono hlevels
  refine Json.fits_object ?_
  rw [List.forall_mem_cons, List.forall_mem_cons]
  exact ⟨hcomment, Json.fits_number hline, h⟩

section Nested

variable {δ : Type} {toJson : δ → Json} {levels : Nat}

theorem MediaRule.fits {rule : MediaRule δ} (hlevels : 2 ≤ levels)
    (h : ∀ nested, rule.nested? = some nested → (toJson nested).Fits levels) :
    (rule.map toJson).toJson.Fits (levels + 1) := by
  cases rule with
  | style rule =>
      exact Json.fits_object fun member hmember =>
        (rule.fits_members _ _ member hmember).mono hlevels
  | atRule nested => exact Json.fits_object (List.forall_mem_singleton.mpr (h nested rfl))

theorem MediaBlock.fits_members {block : MediaBlock δ} (hlevels : 2 ≤ levels)
    (h : ∀ nested ∈ block.nested, (toJson nested).Fits levels) :
    ∀ member ∈ (block.map toJson).members, member.2.Fits (levels + 2) := by
  rw [members, List.forall_mem_cons, List.forall_mem_singleton]
  refine ⟨Json.fits_string _, Json.fits_list (List.forall_mem_map.mpr fun rule hrule => ?_)⟩
  exact MediaRule.fits hlevels fun nested hnested =>
    h nested (List.mem_filterMap.mpr ⟨rule, hrule, hnested⟩)

namespace Sheet

variable {sheet : Sheet δ}

theorem fits_records {α : Type} {members : α → List (Text × Json)} {most : Nat}
    {records : Option (List (Record α))} (hlines : ∀ line ∈ recordLines records, line < 2 ^ 64)
    (hlevels : 0 < levels) (hmost : levels + 2 ≤ most)
    (h : ∀ record ∈ records.getD [], ∀ member ∈ members record.content, member.2.Fits levels) :
    ∀ content ∈ records, (Json.list (Record.toJson members) content).Fits most := by
  rintro content rfl
  have hlist : (Json.list (Record.toJson members) content).Fits (levels + 2) :=
    Json.fits_list fun record hrecord =>
      Record.fits (hlines record.line (List.mem_map_of_mem hrecord)) hlevels (h record hrecord)
  exact hlist.mono hmost

/-- A sheet takes four brackets inside its own to reach its nested at-rules, and never more than
six to reach anything else. -/
theorem fits (hlines : ∀ line ∈ sheet.lines, line < 2 ^ 64) (hlevels : 2 ≤ levels)
    (h : ∀ nested ∈ sheet.nested, (toJson nested).Fits levels) :
    sheet.Fits toJson (levels + 4) := by
  simp only [lines, List.forall_mem_append] at hlines
  obtain ⟨⟨⟨⟨⟨⟨hcharset, himports⟩, htailwind⟩, hconfig⟩, hkeyframes⟩, hmedia⟩, hstyles⟩ := hlines
  constructor
  case charset =>
    exact fits_records hcharset Nat.one_pos (by omega) fun record _ => Directive.fits_members _
  case imports =>
    exact fits_records himports Nat.one_pos (by omega) fun record _ => Directive.fits_members _
  case tailwind =>
    exact fits_records htailwind Nat.one_pos (by omega) fun record _ => Directive.fits_members _
  case config =>
    intro record hrecord
    have hline : record.line < 2 ^ 64 :=
      hconfig record.line (List.mem_map_of_mem (Option.mem_toList.mpr hrecord))
    exact (Record.fits hline Nat.one_pos (Directive.fits_members _)).mono (by omega)
  case keyframes =>
    exact fits_records hkeyframes (Nat.succ_pos 3) (by omega) fun record _ =>
      record.content.fits_members
  case media =>
    have hmembers : ∀ record ∈ sheet.media.getD [],
        ∀ member ∈ (record.content.map toJson).members, member.2.Fits (levels + 2) :=
      fun record hrecord => MediaBlock.fits_members hlevels fun nested hnested =>
        h nested (List.mem_flatMap.mpr ⟨record, hrecord, hnested⟩)
    have hrecords : ∀ content ∈ sheet.media, (Json.list
        (Record.toJson fun block => (block.map toJson).members) content).Fits (levels + 4) :=
      fits_records hmedia (Nat.succ_pos _) (Nat.le_refl _) hmembers
    exact hrecords
  case styles =>
    exact fits_records hstyles Nat.two_pos (by omega) fun record _ =>
      record.content.fits_members _ _

theorem Fits.json (nested : Json.SourceTree → Except Json.Fault δ)
    (h : sheet.Fits toJson levels) : (sheet.map toJson).toJson.Fits (levels + 1) := by
  rw [entries_member nested]
  exact Json.fits_object (List.forall_mem_map.mpr h.entries)

end Sheet

end Nested

/-- Five brackets stand around a nested at-rule: those of the rule, of the rules of its block, of
the block, of the blocks, and of the sheet. -/
theorem Sheet.depth_nested_le {sheet : Sheet Json} {json : Json} (h : json ∈ sheet.nested) :
    json.depth + 5 ≤ sheet.toJson.depth := by
  obtain ⟨record, hrecord, hnested⟩ := List.mem_flatMap.mp h
  obtain ⟨rule, hrule, hatRule⟩ := List.mem_filterMap.mp hnested
  obtain rfl := MediaRule.nested?_eq_some_iff.mp hatRule
  obtain ⟨records, hmedia⟩ : ∃ records, sheet.media = some records := by
    cases hmedia : sheet.media with
    | none => simp [hmedia] at hrecord
    | some records => exact ⟨records, rfl⟩
  rw [hmedia] at hrecord
  let blocks := Json.list (Record.toJson MediaBlock.members) records
  let rules := Json.list MediaRule.toJson record.content.rules
  have hmember : ("at_rule".toList, json) ∈ [("at_rule".toList, json)] := List.mem_singleton.mpr rfl
  have hrules : ("rules".toList, rules) ∈ ("comment".toList,
      Json.orNull (Json.list .string) record.comment) :: ("line".toList, .number record.line) ::
        record.content.members := by
    simp [MediaBlock.members, rules]
  have hblocks : ("media".toList, blocks) ∈ Json.optional "media".toList
      (Json.list (Record.toJson MediaBlock.members)) sheet.media := by
    rw [hmedia]
    exact List.mem_singleton.mpr rfl
  have hinner : json.depth < (MediaRule.atRule json).toJson.depth := Json.depth_lt_object hmember
  have hrule : (MediaRule.atRule json).toJson.depth < rules.depth :=
    Json.depth_lt_array (List.mem_map_of_mem hrule)
  have hblock : rules.depth < (Record.toJson MediaBlock.members record).depth :=
    Json.depth_lt_object hrules
  have hrecord : (Record.toJson MediaBlock.members record).depth < blocks.depth :=
    Json.depth_lt_array (List.mem_map_of_mem hrecord)
  have hsheet : blocks.depth < sheet.toJson.depth :=
    Json.depth_lt_object (List.mem_append_left _ (List.mem_append_right _ hblocks))
  omega

namespace Document

/-- Five brackets for each level of at-rules, and seven more at most. -/
theorem fits_toJson {document : Document} (hlines : ∀ line ∈ document.lines, line < 2 ^ 64) :
    document.toJson.Fits (5 * document.nesting + 7) := by
  induction document using Document.induction with
  | step sheet ih =>
      rw [lines_mk, List.forall_mem_append] at hlines
      obtain ⟨hsheet, hinner⟩ := hlines
      have hnested : ∀ nested ∈ sheet.nested,
          nested.toJson.Fits (5 * nesting ⟨sheet⟩ + 2) := by
        intro nested hmem
        have hdeeper := nesting_le_iff.mp (Nat.le_refl (nesting ⟨sheet⟩)) nested hmem
        have hline : ∀ line ∈ nested.lines, line < 2 ^ 64 := fun line hline =>
          hinner line (List.mem_flatMap.mpr ⟨nested, hmem, hline⟩)
        exact (ih nested hmem hline).mono (by omega)
      have hfits : sheet.Fits toJson (5 * nesting ⟨sheet⟩ + 2 + 4) :=
        Sheet.fits hsheet (by omega) hnested
      rw [toJson_mk]
      exact hfits.json (decode 0)

theorem lines_parse_lt (cap : Option Nat) {source : Text} (h : source.byteSize < 2 ^ 64) :
    ∀ line ∈ (parse cap source).lines, line < 2 ^ 64 := by
  intro line hline
  have hle := lines_parseAt_le cap 0 source line hline
  have hsize := source.length_le_byteSize
  omega

/-- What is parsed under a cap of 24 fits into the brackets that the reader takes. -/
theorem fits_parse {most : Nat} (hmost : most ≤ 24) {source : Text}
    (hsource : source.byteSize < 2 ^ 64) : (parse (some most) source).toJson.Fits 127 := by
  have hnesting : (parse (some most) source).nesting ≤ most := by
    rw [parse_eq_parseAt, parseAt_some_eq_prune]
    exact nesting_prune_le most _ 0
  exact (fits_toJson (lines_parse_lt (some most) hsource)).mono (by omega)

/-! ### A document that is too deep -/

theorem depth_nested_le {sheet : Sheet Document} {nested : Document} (h : nested ∈ sheet.nested) :
    nested.toJson.depth + 5 ≤ (toJson ⟨sheet⟩).depth := by
  rw [toJson_mk]
  have hjson : nested.toJson ∈ (sheet.map toJson).nested := by
    rw [Sheet.nested_map]
    exact List.mem_map_of_mem h
  exact Sheet.depth_nested_le hjson

/-- A document of one media block on the first line. -/
def around (rules : List (MediaRule Document)) : Document :=
  ⟨{ media := some [⟨none, 1, ⟨"a".toList, rules⟩⟩] }⟩

/-- Media blocks in one another, `depth` of them below the outermost. -/
def tower : (depth : Nat) → Document
  | 0 => around []
  | depth + 1 => around [.atRule (tower depth)]

theorem around_nested (rules : List (MediaRule Document)) :
    (around rules).sheet.nested = rules.filterMap MediaRule.nested? :=
  List.append_nil _

theorem nesting_tower_le (depth : Nat) : (tower depth).nesting ≤ depth := by
  induction depth with
  | zero => exact nesting_le_iff.mpr fun nested hnested => absurd hnested List.not_mem_nil
  | succ depth ih =>
      refine nesting_le_iff.mpr fun nested hnested => ?_
      obtain rfl := List.mem_singleton.mp hnested
      exact Nat.succ_le_succ ih

theorem le_depth_tower (depth : Nat) : 5 * depth + 4 ≤ (tower depth).toJson.depth := by
  induction depth with
  | zero => decide
  | succ depth ih =>
      have hdeeper : (tower depth).toJson.depth + 5 ≤ (tower (depth + 1)).toJson.depth :=
        depth_nested_le (List.mem_singleton.mpr rfl)
      omega

/-- A media block in which other documents stand is read as it was written, if those are. -/
theorem parse_around {rules : List (MediaRule Document)}
    (h : ∀ rule ∈ rules, ∃ nested, rule = .atRule nested ∧ nested.CanonicalNested ∧
      parse none nested.render.trim = nested) :
    (around rules).CanonicalNested ∧ parse none (around rules).render.trim = around rules := by
  have hstyle : ∀ rule, .style rule ∈ rules → rule.Canonical := by
    intro rule hrule
    obtain ⟨nested, hatRule, -⟩ := h _ hrule
    cases hatRule
  have hatRule : ∀ nested, .atRule nested ∈ rules →
      nested.CanonicalNested ∧ parse none nested.render.trim = nested := by
    intro nested hnested
    obtain ⟨other, heq, hother⟩ := h _ hnested
    rwa [MediaRule.atRule.inj heq]
  have hne : "a".toList ≠ [] := by decide
  have htrimmed : Text.Trimmed "a".toList := by decide
  have hquery : "a".toList.all MediaBlock.isHeaderChar := by decide
  let block : MediaBlock Document := ⟨"a".toList, rules⟩
  have hblock : (block.map render).Canonical MediaRule.Nestable :=
    (canonical_of_header hne htrimmed hquery hstyle fun nested hnested =>
      (hatRule nested hnested).1.nestable).map fun _ hnested => hnested
  refine ⟨.wrap 1 block hne htrimmed hquery hstyle fun nested hnested =>
    (hatRule nested hnested).1, ?_⟩
  have hread : Sheet.readKinds Kind.all (around rules).render.trim =
      (around rules).sheet.map (Text.trim ∘ render) := by
    rw [around, trim_render_wrapped, MediaBlock.readKinds_core hblock, ← Sheet.map_map]
    rfl
  have hnested : ∀ nested ∈ (around rules).sheet.nested,
      (parse none ∘ Text.trim ∘ render) nested = id nested := by
    intro nested hmem
    rw [around_nested] at hmem
    obtain ⟨rule, hrule, hsome⟩ := List.mem_filterMap.mp hmem
    obtain rfl := MediaRule.nested?_eq_some_iff.mp hsome
    exact (hatRule nested hrule).2
  have hself : (around rules).sheet.map id = (around rules).sheet := by
    rw [Sheet.map_eq_expand]
    exact Sheet.expand_some _
  rw [parse_none_eq, hread, Sheet.map_map, Sheet.map_congr hnested, hself]
  rfl

theorem parse_tower (depth : Nat) :
    (tower depth).CanonicalNested ∧ parse none (tower depth).render.trim = tower depth := by
  induction depth with
  | zero => exact parse_around (List.forall_mem_nil _)
  | succ depth ih => exact parse_around (List.forall_mem_singleton.mpr ⟨_, rfl, ih⟩)

/-- Below a cap of 25 or more, and without a cap, the tower of 25 is kept and cannot be read. -/
theorem parse_tower_of_cap {cap : Option Nat} (hcap : ∀ most ∈ cap, 24 < most) :
    parse cap (tower 25).render.trim = tower 25 := by
  have hparse : parse none (tower 25).render.trim = tower 25 := (parse_tower 25).2
  cases cap with
  | none => exact hparse
  | some most =>
      have hmost : 24 < most := hcap most rfl
      have hnesting := nesting_tower_le 25
      calc
        parse (some most) (tower 25).render.trim =
            prune most (parse none (tower 25).render.trim) 0 := parseAt_some_eq_prune most 0 _
        _ = prune most (tower 25) 0 := by rw [hparse]
        _ = tower 25 := prune_eq_self (by omega)

theorem byteSize_tower_lt : Text.byteSize (tower 25).render.trim < 2 ^ 64 := by
  decide +kernel

end Document

/-- **Caps under which JSON is read back.** What is parsed under a cap of 24 or less from a source of
fewer than `2 ^ 64` bytes is read back from its JSON text in either layout. Under every greater cap,
and without one, there is a source for which the reader refuses the text of what is parsed. -/
theorem Config.ofJson?_print_parse (config : Config) :
    ((∃ most ∈ config.maxNesting, most ≤ 24) →
      ∀ source : Text, source.byteSize < 2 ^ 64 → ∀ layout,
        Document.ofJson? ((config.parse source).print layout) = .ok (config.parse source)) ∧
    ((∀ most ∈ config.maxNesting, 24 < most) →
      ∃ source : Text, source.byteSize < 2 ^ 64 ∧ ∀ layout, ∃ fault,
        Document.ofJson? ((config.parse source).print layout) = .error fault) := by
  constructor
  · rintro ⟨most, hcap, hmost⟩ source hsource layout
    rw [parse, Option.mem_def.mp hcap]
    exact Document.ofJson?_print_of_fits layout (Document.fits_parse hmost hsource)
  · intro hcap
    refine ⟨(Document.tower 25).render.trim, Document.byteSize_tower_lt, fun layout => ?_⟩
    have hlines : ∀ line ∈ (Document.tower 25).lines, line < 2 ^ 64 := by
      have hlt := Document.lines_parse_lt none Document.byteSize_tower_lt
      rwa [(Document.parse_tower 25).2] at hlt
    have hdepth : 5 * 25 + 4 ≤ (Document.tower 25).toJson.depth := Document.le_depth_tower 25
    have hread := Document.ofJson?_print_eq_limited layout fun value hvalue =>
      hlines value ((Document.tower 25).mem_lines_of_mem_numbers value hvalue)
    rw [parse, Document.parse_tower_of_cap hcap, hread]
    exact ⟨.recursionLimit, if_neg (by omega)⟩

theorem Config.ofJson?_print_parse_tiered :
    (∃ most ∈ (some 24 : Option Nat), most ≤ 24) ∧ tiered.byteSize < 2 ^ 64 ∧
      Document.ofJson? (((⟨some 24, .pretty⟩ : Config).parse tiered).print .compact) =
        .ok ((⟨some 24, .pretty⟩ : Config).parse tiered) ∧
      (∀ most ∈ (none : Option Nat), 24 < most) ∧
      ∃ source : Text, source.byteSize < 2 ^ 64 ∧ ∀ layout, ∃ fault,
        Document.ofJson? ((({} : Config).parse source).print layout) = .error fault := by
  have hcap : ∃ most ∈ (some 24 : Option Nat), most ≤ 24 := ⟨24, rfl, Nat.le_refl 24⟩
  have hsource : tiered.byteSize < 2 ^ 64 := by decide
  have hnone : ∀ most ∈ (none : Option Nat), 24 < most := fun most hmost => nomatch hmost
  exact ⟨hcap, hsource, (ofJson?_print_parse ⟨some 24, .pretty⟩).1 hcap tiered hsource .compact,
    hnone, (ofJson?_print_parse {}).2 hnone⟩

end Stylesheet
