import Mathlib.Data.List.Basic
import Mathlib.Tactic.Tauto
import Stylesheet.Document.OfJson
import Stylesheet.Document.ToJson
import Stylesheet.Proofs.Decoding
import Stylesheet.Proofs.JsonNesting
import Stylesheet.Proofs.NestedRules

/-!
# Documents survive JSON

A document is read back from its JSON text in either layout, unless its brackets are more than 127
deep; then reading fails at that limit.
-/

namespace Stylesheet

open Json (Decoder Entry FieldReader Schema SourceTree Recovers)

theorem Declaration.recovers (declaration : Declaration) (levels : Nat) :
    Recovers (Declaration.decode levels) levels declaration.toJson declaration :=
  Schema.recovers_decode (by decide) fun below _ =>
    ((Schema.recovers_one (Decoder.recovers_text below declaration.property)).both
      (Schema.recovers_one (Decoder.recovers_text below declaration.value))).map _

namespace Rule

theorem recovers_schema (selectorKey declarationsKey : Text) (rule : Rule) (levels : Nat) :
    (Rule.schema selectorKey declarationsKey).Recovers levels
      (rule.members selectorKey declarationsKey) rule :=
  ((Schema.recovers_one (Decoder.recovers_text levels rule.selector)).both
    (Schema.recovers_one (Decoder.recovers_list fun below _ declaration _ =>
      declaration.recovers below))).map _

theorem recovers (rule : Rule) (levels : Nat) :
    Recovers (Rule.decode levels) levels (.object rule.styleMembers) rule :=
  Schema.recovers_decode (by decide) fun below _ => recovers_schema _ _ rule below

theorem recovers_step (rule : Rule) (levels : Nat) :
    Recovers (Rule.decodeStep levels) levels (.object rule.stepMembers) rule :=
  Schema.recovers_decode (by decide) fun below _ => recovers_schema _ _ rule below

end Rule

theorem Keyframes.recovers_schema (keyframes : Keyframes) (levels : Nat) :
    Keyframes.schema.Recovers levels keyframes.members keyframes :=
  ((Schema.recovers_one (Decoder.recovers_text levels keyframes.name)).both
    (Schema.recovers_one (Decoder.recovers_list fun below _ step _ =>
      step.recovers_step below))).map _

namespace Record

variable {σ α β : Type}

theorem recovers_schema {content : Schema σ α} {members : List (Text × Json)} {levels : Nat}
    (record : Record α) (h : content.Recovers levels members record.content) :
    (Record.schema content).Recovers levels
      (("comment".toList, Json.orNull (Json.list .string) record.comment) ::
        ("line".toList, .number record.line) :: members) record :=
  ((Schema.recovers_oneOrNull (Decoder.recovers_orNull fun _ _ =>
    ⟨Json.depth_array_pos _, Decoder.recovers_list fun below _ text _ =>
      Decoder.recovers_text below text⟩)).both
    ((Schema.recovers_one (Decoder.recovers_count levels record.line)).both h)).map _

theorem recovers {content : Schema σ α} {name : Text} {members : α → List (Text × Json)}
    {levels : Nat} (record : Record α)
    (hkeys : ((Record.schema content).fields.map FieldReader.key).Nodup)
    (h : ∀ below, levels = below + 1 →
      content.Recovers below (members record.content) record.content) :
    Recovers (Record.decode name content levels) levels (Record.toJson members record) record :=
  Schema.recovers_decode hkeys fun below hbelow => recovers_schema record (h below hbelow)

end Record

theorem Directive.recovers (record : Record Text) (levels : Nat) :
    Recovers (Directive.decode levels) levels (Record.toJson Directive.members record) record :=
  Record.recovers record (by decide) fun below _ =>
    Schema.recovers_one (Decoder.recovers_text below record.content)

/-! A nested at-rule is told from a rule by its members: it has no selector. -/

namespace MediaRule

variable {δ : Type}

theorem rule_decode_atRule (levels : Nat) (json : Json) :
    ∃ fault, Rule.decode (levels + 1) (Json.tree (.object [("at_rule".toList, json)])) =
      .error fault := by
  have hfind : Rule.styleSchema.fields.find? (·.key = "at_rule".toList) = none := by decide
  refine ⟨.missingField "selector".toList, ?_⟩
  rw [Json.tree_object, List.map_singleton, Rule.decode, Schema.decode,
    Schema.readMembers_skip hfind]
  rfl

theorem recovers_nested {nested : SourceTree → Except Json.Fault δ} {levels : Nat} {json : Json}
    {document : δ} (h : ∀ below, levels = below + 1 → Recovers nested below json document) :
    Recovers (decodeNested nested levels) levels (.object [("at_rule".toList, json)]) document := by
  have hone : Recovers ((Schema.one "at_rule".toList fun _ => nested).decode [] levels) levels
      (.object [("at_rule".toList, json)]) document :=
    Schema.recovers_decode (List.pairwise_singleton _ _) fun below hbelow =>
      Schema.recovers_one (h below hbelow)
  rw [Recovers, Json.tree_object] at hone ⊢
  rw [decodeNested]
  · exact hone
  · intro closed items heq
    exact absurd heq SourceTree.noConfusion

theorem decode_of_rule {nested : SourceTree → Except Json.Fault δ} {levels : Nat}
    {tree : SourceTree} {rule : Rule} (hfault : tree.fault? levels = none)
    (hrule : Rule.decode levels tree = .ok rule) : decode nested levels tree = .ok (.style rule) := by
  rw [decode, hfault, hrule]
  rfl

theorem decode_of_nested {nested : SourceTree → Except Json.Fault δ} {levels : Nat}
    {tree : SourceTree} {fault : Json.Fault} {document : δ} (hfault : tree.fault? levels = none)
    (hrule : Rule.decode levels tree = .error fault)
    (hnested : decodeNested nested levels tree = .ok document) :
    decode nested levels tree = .ok (.atRule document) := by
  rw [decode, hfault, hrule, hnested]
  rfl

theorem recovers {nested : SourceTree → Except Json.Fault δ} {levels : Nat} (toJson : δ → Json)
    (rule : MediaRule δ)
    (h : ∀ below, levels = below + 1 → ∀ document, rule.nested? = some document →
      Recovers nested below (toJson document) document) :
    Recovers (decode nested levels) levels (rule.map toJson).toJson rule := by
  have hfault := SourceTree.fault?_tree (rule.map toJson).toJson levels
  by_cases hdepth : (rule.map toJson).toJson.depth ≤ levels
  · rw [if_pos hdepth] at hfault
    rw [Recovers, Json.limited, if_pos hdepth]
    cases rule with
    | style rule => exact decode_of_rule hfault ((rule.recovers levels).eq_ok hdepth)
    | atRule document =>
        have hpos : 0 < levels := Nat.lt_of_lt_of_le (Json.depth_object_pos _) hdepth
        obtain ⟨below, rfl⟩ := Nat.exists_eq_succ_of_ne_zero (Nat.ne_of_gt hpos)
        obtain ⟨fault, hrule⟩ := rule_decode_atRule below (toJson document)
        have hnested := recovers_nested fun other hother => h other hother document rfl
        exact decode_of_nested hfault hrule (hnested.eq_ok hdepth)
  · rw [if_neg hdepth] at hfault
    rw [Recovers, decode, hfault, Json.limited, if_neg hdepth]
    rfl

end MediaRule

namespace MediaBlock

variable {δ : Type}

theorem recovers_schema {nested : SourceTree → Except Json.Fault δ} {levels : Nat}
    (toJson : δ → Json) (block : MediaBlock δ)
    (h : ∀ below, levels = below + 2 → ∀ document ∈ block.nested,
      Recovers nested below (toJson document) document) :
    (schema nested).Recovers levels (block.map toJson).members block := by
  have hrules : Recovers (Decoder.list (MediaRule.decode nested) levels) levels
      (Json.list MediaRule.toJson (block.rules.map (MediaRule.map toJson))) block.rules := by
    rw [Json.list, List.map_map]
    refine Decoder.recovers_list fun below hbelow rule hrule => rule.recovers toJson ?_
    intro other hother document hdocument
    refine h other (by omega) document (List.mem_filterMap.mpr ⟨rule, hrule, hdocument⟩)
  exact ((Schema.recovers_one (Decoder.recovers_text levels block.query)).both
    (Schema.recovers_one hrules)).map _

theorem recovers {nested : SourceTree → Except Json.Fault δ} {levels : Nat} (toJson : δ → Json)
    (record : Record (MediaBlock δ))
    (h : ∀ below, levels = below + 3 → ∀ document ∈ record.content.nested,
      Recovers nested below (toJson document) document) :
    Recovers (Record.decode "MediaBlock".toList (schema nested) levels) levels
      (Record.toJson members (record.map (map toJson))) record := by
  have hkeys : ((Record.schema (schema nested)).fields.map FieldReader.key).Nodup := by
    change ["comment".toList, "line".toList, "media_query".toList, "rules".toList].Nodup
    decide
  have hrecord : Recovers (Record.decode "MediaBlock".toList (schema nested) levels) levels
      (Record.toJson (fun block => (block.map toJson).members) record) record :=
    Record.recovers record hkeys fun below hbelow => record.content.recovers_schema toJson
      fun other hother => h other (by omega)
  exact hrecord

end MediaBlock

namespace Sheet

variable {α δ : Type}

section KindEntry

variable (key : Text) (decode : Decoder α) (set : Option α → Sheet δ → Sheet δ) (toJson : α → Json)

/-- A kind that is written as null when it is absent. -/
def kindEntry (value : Option α) : Entry (Sheet δ) :=
  ⟨kindField key decode set, Json.orNull toJson value, set value⟩

/-- A kind that is left out when it is absent. -/
def kindEntries : Option α → List (Entry (Sheet δ))
  | none => []
  | some content => [kindEntry key decode set toJson (some content)]

variable {key decode set toJson}

theorem kindEntry_recovers {levels : Nat} {value : Option α}
    (h : ∀ content ∈ value, 0 < (toJson content).depth ∧
      Recovers (decode levels) levels (toJson content) content) :
    (kindEntry key decode set toJson value).Recovers levels := by
  intro draft
  change (Decoder.orNull decode levels (Json.orNull toJson value).tree).map (set · draft) = _
  rw [Decoder.recovers_orNull h, Json.limited_map]
  rfl

theorem kindEntries_recovers {levels : Nat} {value : Option α}
    (h : ∀ content ∈ value, 0 < (toJson content).depth ∧
      Recovers (decode levels) levels (toJson content) content) :
    ∀ entry ∈ kindEntries key decode set toJson value, entry.Recovers levels := by
  cases value with
  | none => exact fun entry hentry => absurd hentry List.not_mem_nil
  | some content => exact List.forall_mem_singleton.mpr (kindEntry_recovers h)

theorem kindEntries_sublist (value : Option α) :
    ((kindEntries key decode set toJson value).map Entry.field).Sublist
      [kindField key decode set] := by
  cases value with
  | none => exact List.nil_sublist _
  | some content => exact List.Sublist.refl _

theorem kindEntries_member (value : Option α) :
    (kindEntries key decode set toJson value).map Entry.member =
      Json.optional key toJson value := by
  cases value <;> rfl

theorem fill_kindEntries {draft : Sheet δ} (value : Option α) (h : set none draft = draft) :
    Entry.fill (kindEntries key decode set toJson value) draft = set value draft := by
  cases value with
  | none => exact h.symm
  | some content => rfl

end KindEntry

theorem recovers_records {decode : Decoder α} {toJson : α → Json} {levels : Nat}
    {records : Option (List α)}
    (h : ∀ below, levels = below + 1 → ∀ record ∈ records.getD [],
      Recovers (decode below) below (toJson record) record) :
    ∀ content ∈ records, 0 < (Json.list toJson content).depth ∧
      Recovers (Decoder.list decode levels) levels (Json.list toJson content) content := by
  rintro content rfl
  exact ⟨Json.depth_array_pos _, Decoder.recovers_list h⟩

/-- What is written for a sheet. -/
def entries (nested : SourceTree → Except Json.Fault δ) (toJson : δ → Json) (sheet : Sheet δ) :
    List (Entry (Sheet δ)) :=
  let directives := Json.list (Record.toJson Directive.members)
  kindEntries "charset".toList (Decoder.list Directive.decode)
      (fun records sheet => { sheet with charset := records }) directives sheet.charset ++
    ([kindEntry "imports".toList (Decoder.list Directive.decode)
        (fun records sheet => { sheet with imports := records }) directives sheet.imports,
      kindEntry "tailwind".toList (Decoder.list Directive.decode)
        (fun records sheet => { sheet with tailwind := records }) directives sheet.tailwind] ++
    (kindEntries "config".toList Directive.decode
        (fun record sheet => { sheet with config := record })
        (Record.toJson Directive.members) sheet.config ++
    (kindEntries "keyframes".toList
        (Decoder.list (Record.decode "Keyframes".toList Keyframes.schema))
        (fun records sheet => { sheet with keyframes := records })
        (Json.list (Record.toJson Keyframes.members)) sheet.keyframes ++
    (kindEntries "media".toList
        (Decoder.list (Record.decode "MediaBlock".toList (MediaBlock.schema nested)))
        (fun records sheet => { sheet with media := records })
        (Json.list fun record => Record.toJson MediaBlock.members (record.map (MediaBlock.map toJson)))
        sheet.media ++
    kindEntries "styles".toList (Decoder.list (Record.decode "StyleRule".toList Rule.styleSchema))
        (fun records sheet => { sheet with styles := records })
        (Json.list (Record.toJson Rule.styleMembers)) sheet.styles))))

theorem entries_sublist (nested : SourceTree → Except Json.Fault δ) (toJson : δ → Json)
    (sheet : Sheet δ) :
    ((entries nested toJson sheet).map Entry.field).Sublist (schema nested).fields := by
  rw [entries]
  simp only [List.map_append]
  exact (kindEntries_sublist _).append ((List.Sublist.refl _).append
    ((kindEntries_sublist _).append ((kindEntries_sublist _).append
      ((kindEntries_sublist _).append (kindEntries_sublist _)))))

theorem entries_member (nested : SourceTree → Except Json.Fault δ) (toJson : δ → Json)
    (sheet : Sheet δ) :
    (sheet.map toJson).toJson = .object ((entries nested toJson sheet).map Entry.member) := by
  have hmedia : Json.optional "media".toList (Json.list (Record.toJson MediaBlock.members))
      (sheet.map toJson).media =
      Json.optional "media".toList (Json.list fun record =>
        Record.toJson MediaBlock.members (record.map (MediaBlock.map toJson))) sheet.media := by
    obtain ⟨_, _, _, _, _, media, _⟩ := sheet
    cases media with
    | none => rfl
    | some records =>
        change [("media".toList, Json.array ((records.map _).map _))] = _
        rw [List.map_map]
        rfl
  rw [Sheet.toJson, hmedia, entries]
  simp only [List.map_append, kindEntries_member, List.append_assoc]
  rfl

theorem fill_entries (nested : SourceTree → Except Json.Fault δ) (toJson : δ → Json)
    (sheet : Sheet δ) : Entry.fill (entries nested toJson sheet) {} = sheet := by
  rw [entries]
  simp only [Entry.fill_append]
  rw [fill_kindEntries sheet.charset rfl]
  change Entry.fill _ (Entry.fill _ (Entry.fill _ (Entry.fill _
    ({ charset := sheet.charset, imports := sheet.imports, tailwind := sheet.tailwind } :
      Sheet δ)))) = _
  rw [fill_kindEntries sheet.config rfl]
  rw [fill_kindEntries sheet.keyframes rfl]
  rw [fill_kindEntries sheet.media rfl]
  rw [fill_kindEntries sheet.styles rfl]

theorem entries_recovers {nested : SourceTree → Except Json.Fault δ} {levels : Nat}
    (toJson : δ → Json) (sheet : Sheet δ)
    (h : ∀ below, levels = below + 4 → ∀ document ∈ sheet.nested,
      Recovers nested below (toJson document) document) :
    ∀ entry ∈ entries nested toJson sheet, entry.Recovers levels := by
  have hdirectives : ∀ records : Option (List (Record Text)), ∀ content ∈ records,
      0 < (Json.list (Record.toJson Directive.members) content).depth ∧
        Recovers (Decoder.list Directive.decode levels) levels
          (Json.list (Record.toJson Directive.members) content) content :=
    fun records => recovers_records fun below _ record _ => Directive.recovers record below
  have hconfig : ∀ record ∈ sheet.config, 0 < (Record.toJson Directive.members record).depth ∧
      Recovers (Directive.decode levels) levels (Record.toJson Directive.members record) record :=
    fun record _ => ⟨Json.depth_object_pos _, Directive.recovers record levels⟩
  rw [entries]
  simp only [List.forall_mem_append]
  refine ⟨kindEntries_recovers (hdirectives _), ?_, kindEntries_recovers hconfig,
    kindEntries_recovers ?keyframes, kindEntries_recovers ?media, kindEntries_recovers ?styles⟩
  case keyframes =>
    exact recovers_records fun below _ record _ => Record.recovers record (by decide) fun lower _ =>
      record.content.recovers_schema lower
  case media =>
    apply recovers_records
    intro below hbelow record hrecord
    exact MediaBlock.recovers toJson record fun other hother document hdocument =>
      h other (by omega) document (List.mem_flatMap.mpr ⟨record, hrecord, hdocument⟩)
  case styles =>
    exact recovers_records fun below _ record _ => Record.recovers record (by decide) fun lower _ =>
      Rule.recovers_schema _ _ record.content lower
  rw [List.forall_mem_cons, List.forall_mem_singleton]
  exact ⟨kindEntry_recovers (hdirectives _), kindEntry_recovers (hdirectives _)⟩

theorem recovers {nested : SourceTree → Except Json.Fault δ} {levels : Nat} (toJson : δ → Json)
    (sheet : Sheet δ)
    (h : ∀ below, levels = below + 5 → ∀ document ∈ sheet.nested,
      Recovers nested below (toJson document) document) :
    Recovers (decode nested levels) levels (sheet.map toJson).toJson sheet := by
  have hkeys : ((schema nested).fields.map FieldReader.key).Nodup := by
    change ["charset".toList, "imports".toList, "tailwind".toList, "config".toList,
      "keyframes".toList, "media".toList, "styles".toList].Nodup
    decide
  rw [entries_member nested]
  refine Schema.recovers_decode hkeys fun below hbelow =>
    ⟨entries nested toJson sheet, entries_sublist nested toJson sheet,
      entries_recovers toJson sheet fun other hother => h other (by omega), rfl, ?_⟩
  exact congrArg Except.ok (fill_entries nested toJson sheet)

end Sheet

namespace Document

theorem toJson_mk (sheet : Sheet Document) : toJson ⟨sheet⟩ = (sheet.map toJson).toJson :=
  fold_mk Sheet.toJson sheet

theorem recovers (document : Document) :
    ∀ levels, Recovers (decode levels) levels document.toJson document := by
  induction document using Document.induction with
  | step sheet ih =>
      intro levels
      have hsheet : ∀ nested, decode levels = (fun tree => (Sheet.decode nested levels tree).map .mk) →
          (∀ below, levels = below + 5 → nested = decode below) →
          Recovers (decode levels) levels (toJson ⟨sheet⟩) ⟨sheet⟩ := by
        intro nested hdecode hnested
        have hrecovers : Recovers (Sheet.decode nested levels) levels (sheet.map toJson).toJson
            sheet := by
          apply sheet.recovers toJson
          intro below hbelow document hdocument
          rw [hnested below hbelow]
          exact ih document hdocument below
        rw [Recovers, toJson_mk, hdecode]
        simp only
        rw [hrecovers, Json.limited_map]
      by_cases hlevels : 5 ≤ levels
      · obtain ⟨below, rfl⟩ := Nat.exists_eq_add_of_le' hlevels
        refine hsheet (decode below) (funext fun tree => decode.eq_1 tree below) ?_
        intro other hother
        rw [Nat.add_right_cancel hother]
      · have hfew : ∀ below, levels = below + 5 → False := fun below hbelow => by omega
        exact hsheet _ (funext fun tree => decode.eq_2 levels tree hfew) fun below hbelow =>
          (hfew below hbelow).elim

end Document

/-! The only numbers in the JSON value of a document are the lines of its records. -/

namespace Json

def memberNumbers (members : List (Text × Json)) : List Nat :=
  members.flatMap fun member => member.2.numbers

theorem numbers_object_eq (members : List (Text × Json)) :
    numbers (.object members) = memberNumbers members :=
  numbers_object members

theorem memberNumbers_append (members others : List (Text × Json)) :
    memberNumbers (members ++ others) = memberNumbers members ++ memberNumbers others :=
  List.flatMap_append

theorem numbers_list {α : Type} (toJson : α → Json) (items : List α) :
    (list toJson items).numbers = items.flatMap fun item => (toJson item).numbers := by
  rw [list, numbers_array, List.flatMap_map]

theorem memberNumbers_optional {α : Type} (key : Text) (toJson : α → Json) (value : Option α) :
    memberNumbers (optional key toJson value) = value.toList.flatMap fun value =>
      (toJson value).numbers := by
  cases value <;> rfl

theorem memberNumbers_orNull {α : Type} (key : Text) (toJson : α → Json) (value : Option α) :
    memberNumbers [(key, orNull toJson value)] = value.toList.flatMap fun value =>
      (toJson value).numbers := by
  cases value <;> rfl

end Json

theorem Rule.memberNumbers_members (selectorKey declarationsKey : Text) (rule : Rule) :
    Json.memberNumbers (rule.members selectorKey declarationsKey) = [] := by
  have hdeclarations : (Json.list Declaration.toJson rule.declarations).numbers = [] := by
    rw [Json.numbers_list, List.flatMap_eq_nil_iff]
    exact fun declaration _ => rfl
  rw [members, Json.memberNumbers]
  simp only [List.flatMap_cons, List.flatMap_nil, hdeclarations]
  rfl

theorem Keyframes.memberNumbers_members (keyframes : Keyframes) :
    Json.memberNumbers keyframes.members = [] := by
  have hsteps : (Json.list (fun step : Rule => .object step.stepMembers) keyframes.steps).numbers =
      [] := by
    rw [Json.numbers_list, List.flatMap_eq_nil_iff]
    intro step _
    rw [Json.numbers_object_eq]
    exact step.memberNumbers_members _ _
  rw [members, Json.memberNumbers]
  simp only [List.flatMap_cons, List.flatMap_nil, hsteps]
  rfl

theorem MediaBlock.memberNumbers_members (block : MediaBlock Json) :
    Json.memberNumbers block.members = block.nested.flatMap Json.numbers := by
  have hrule : ∀ rule : MediaRule Json,
      rule.toJson.numbers = rule.nested?.toList.flatMap Json.numbers := by
    intro rule
    cases rule with
    | style rule =>
        rw [MediaRule.toJson, Json.numbers_object_eq]
        exact rule.memberNumbers_members _ _
    | atRule nested =>
        rw [MediaRule.toJson, Json.numbers_object_eq]
        rfl
  have hrules : (Json.list MediaRule.toJson block.rules).numbers =
      block.nested.flatMap Json.numbers := by
    rw [Json.numbers_list, nested, List.filterMap_eq_flatMap_toList, List.flatMap_assoc]
    simp only [hrule]
  rw [members, Json.memberNumbers]
  simp only [List.flatMap_cons, List.flatMap_nil, hrules, List.append_nil]
  rfl

theorem Record.numbers_toJson {α : Type} (members : α → List (Text × Json)) (record : Record α) :
    (Record.toJson members record).numbers =
      record.line :: Json.memberNumbers (members record.content) := by
  have hcomment : (Json.orNull (Json.list .string) record.comment).numbers = [] := by
    cases record.comment with
    | none => rfl
    | some comment =>
        rw [Json.orNull, Json.numbers_list, List.flatMap_eq_nil_iff]
        exact fun text _ => rfl
  rw [toJson, Json.numbers_object_eq, Json.memberNumbers, List.flatMap_cons, hcomment]
  rfl

namespace Sheet

variable {α δ ε : Type}

def recordLines (records : Option (List (Record α))) : List Nat :=
  (records.getD []).map Record.line

/-- The lines of the records of a sheet; those of nested at-rules are not among them. -/
def lines (sheet : Sheet δ) : List Nat :=
  recordLines sheet.charset ++ recordLines sheet.imports ++ recordLines sheet.tailwind ++
    sheet.config.toList.map Record.line ++ recordLines sheet.keyframes ++
    recordLines sheet.media ++ recordLines sheet.styles

theorem lines_map (f : δ → ε) (sheet : Sheet δ) : (sheet.map f).lines = sheet.lines := by
  have hmedia : recordLines (sheet.map f).media = recordLines sheet.media := by
    obtain ⟨_, _, _, _, _, media, _⟩ := sheet
    cases media with
    | none => rfl
    | some records => exact List.map_map
  rw [lines, hmedia]
  rfl

theorem memberNumbers_records {members : α → List (Text × Json)}
    (records : Option (List (Record α))) :
    (records.toList.flatMap fun records => (Json.list (Record.toJson members) records).numbers) =
      (records.getD []).flatMap fun record =>
        record.line :: Json.memberNumbers (members record.content) := by
  cases records with
  | none => rfl
  | some records => 
      rw [Option.toList_some, List.flatMap_singleton, Json.numbers_list]
      simp only [Record.numbers_toJson]
      rfl

theorem memberNumbers_lines {members : α → List (Text × Json)}
    (hmembers : ∀ content, Json.memberNumbers (members content) = [])
    (records : Option (List (Record α))) :
    (records.toList.flatMap fun records => (Json.list (Record.toJson members) records).numbers) =
      recordLines records := by
  rw [memberNumbers_records, recordLines, List.map_eq_flatMap]
  simp only [hmembers]

theorem numbers_toJson (sheet : Sheet Json) :
    sheet.toJson.numbers =
      recordLines sheet.charset ++ (recordLines sheet.imports ++ recordLines sheet.tailwind) ++
        sheet.config.toList.map Record.line ++ recordLines sheet.keyframes ++
        ((sheet.media.getD []).flatMap fun record =>
          record.line :: record.content.nested.flatMap Json.numbers) ++
        recordLines sheet.styles := by
  have hdirective : ∀ content, Json.memberNumbers (Directive.members content) = [] :=
    fun content => rfl
  have hconfig : (sheet.config.toList.flatMap fun record =>
      (Record.toJson Directive.members record).numbers) = sheet.config.toList.map Record.line := by
    rw [List.map_eq_flatMap]
    simp only [Record.numbers_toJson, hdirective]
  have hwritten : ∀ directives : Option (List (Record Text)), ∀ key,
      Json.memberNumbers [(key, Json.orNull (Json.list (Record.toJson Directive.members))
        directives)] = recordLines directives := by
    intro directives key
    rw [Json.memberNumbers_orNull, memberNumbers_lines hdirective]
  have hpair : Json.memberNumbers [
      ("imports".toList, Json.orNull (Json.list (Record.toJson Directive.members)) sheet.imports),
      ("tailwind".toList, Json.orNull (Json.list (Record.toJson Directive.members))
        sheet.tailwind)] = recordLines sheet.imports ++ recordLines sheet.tailwind := by
    rw [← hwritten sheet.imports "imports".toList, ← hwritten sheet.tailwind "tailwind".toList,
      ← Json.memberNumbers_append]
    rfl
  have hmedia : (sheet.media.toList.flatMap fun records =>
      (Json.list (Record.toJson MediaBlock.members) records).numbers) =
        (sheet.media.getD []).flatMap fun record =>
          record.line :: record.content.nested.flatMap Json.numbers := by
    rw [memberNumbers_records]
    simp only [MediaBlock.memberNumbers_members]
  have hstyle : ∀ rule : Rule, Json.memberNumbers rule.styleMembers = [] :=
    fun rule => rule.memberNumbers_members _ _
  rw [toJson, Json.numbers_object_eq]
  simp only [Json.memberNumbers_append, Json.memberNumbers_optional]
  rw [memberNumbers_lines hdirective, hpair, hconfig, hmedia,
    memberNumbers_lines Keyframes.memberNumbers_members, memberNumbers_lines hstyle]

theorem mem_lines_of_mem_numbers {sheet : Sheet Json} {value : Nat}
    (h : value ∈ sheet.toJson.numbers) :
    value ∈ sheet.lines ∨ value ∈ sheet.nested.flatMap Json.numbers := by
  have hmedia : (value ∈ (sheet.media.getD []).flatMap fun record =>
      record.line :: record.content.nested.flatMap Json.numbers) →
        value ∈ recordLines sheet.media ∨ value ∈ sheet.nested.flatMap Json.numbers := by
    intro hvalue
    obtain ⟨record, hrecord, hvalue⟩ := List.mem_flatMap.mp hvalue
    rcases List.mem_cons.mp hvalue with rfl | hvalue
    · exact .inl (List.mem_map_of_mem hrecord)
    · rw [nested, List.flatMap_assoc]
      exact .inr (List.mem_flatMap.mpr ⟨record, hrecord, hvalue⟩)
  rw [numbers_toJson] at h
  simp only [lines, List.mem_append] at h ⊢
  tauto

end Sheet

namespace Document

/-- The lines of all records of a document, and of the documents nested in it. -/
def lines : Document → List Nat :=
  fold fun sheet => sheet.lines ++ sheet.nested.flatten

theorem lines_mk (sheet : Sheet Document) :
    lines ⟨sheet⟩ = sheet.lines ++ sheet.nested.flatMap lines := by
  rw [lines, fold_mk, Sheet.lines_map, Sheet.nested_map, List.flatMap_def]

theorem mem_lines_of_mem_numbers (document : Document) :
    ∀ value ∈ document.toJson.numbers, value ∈ document.lines := by
  induction document using Document.induction with
  | step sheet ih =>
      intro value hvalue
      rw [lines_mk, List.mem_append]
      rw [toJson_mk] at hvalue
      rcases Sheet.mem_lines_of_mem_numbers hvalue with hvalue | hvalue
      · rw [Sheet.lines_map] at hvalue
        exact .inl hvalue
      · rw [Sheet.nested_map, List.flatMap_map] at hvalue
        obtain ⟨nested, hnested, hvalue⟩ := List.mem_flatMap.mp hvalue
        exact .inr (List.mem_flatMap.mpr ⟨nested, hnested, ih nested hnested value hvalue⟩)

/-- **Reading undoes writing up to the limit of open brackets.** A document whose lines are numbers
of 64 bits is read back from its text in either layout if the text nests arrays and objects at most
127 deep; a text that nests them deeper is refused. -/
theorem ofJson?_print (layout : Json.Layout) (document : Document)
    (hlines : ∀ line ∈ document.lines, line < 2 ^ 64) :
    (Json.nesting (document.print layout) ≤ 127 →
      ofJson? (document.print layout) = .ok document) ∧
    (127 < Json.nesting (document.print layout) →
      ∃ fault, ofJson? (document.print layout) = .error fault ∧
        fault.message = "recursion limit exceeded".toList) := by
  have hnumbers : ∀ value ∈ document.toJson.numbers, value < 2 ^ 64 := fun value hvalue =>
    hlines value (document.mem_lines_of_mem_numbers value hvalue)
  have hread : SourceTree.read (document.print layout) = (document.toJson.tree, some []) :=
    SourceTree.read_print layout hnumbers
  have hnesting : Json.nesting (document.print layout) = document.toJson.depth :=
    Json.nesting_print layout document.toJson
  have hrun : ofJson? (document.print layout) =
      Json.limited (document.toJson.depth ≤ 127) document := by
    rw [ofJson?, Decoder.run, hread]
    change ((decode 127 document.toJson.tree).bind fun value => _) = _
    rw [document.recovers 127]
    exact Json.limited_bind_ok rfl
  rw [hnesting, hrun]
  refine ⟨fun hdepth => if_pos hdepth, fun hdepth => ⟨.recursionLimit, ?_, rfl⟩⟩
  exact if_neg (Nat.not_le.mpr hdepth)

/-- A document with lists and comments that are empty, and the greatest line that can be read. -/
def sparse : Document :=
  ⟨{ charset := some []
     media := some [⟨some [], 2 ^ 64 - 1, ⟨"print".toList, [
       .style ⟨"a".toList, []⟩,
       .atRule ⟨{ imports := some [], config := some ⟨none, 0, "\n".toList⟩ }⟩]⟩⟩] }⟩

theorem ofJson?_print_sparse :
    (∀ line ∈ sparse.lines, line < 2 ^ 64) ∧ Json.nesting (sparse.print .pretty) = 7 ∧
      ofJson? (sparse.print .pretty) = .ok sparse := by
  have hlines : ∀ line ∈ sparse.lines, line < 2 ^ 64 := by decide
  have hnesting : Json.nesting (sparse.print .pretty) = 7 := by
    rw [print, Json.nesting_print]
    decide
  exact ⟨hlines, hnesting, (ofJson?_print .pretty sparse hlines).1 (by omega)⟩

end Document

end Stylesheet
