import Stylesheet.Proofs.DecodedValues
import Stylesheet.Proofs.JsonRoundTrip

/-!
# Loading, writing and loading again

What is loaded from a JSON text, in whatever form the text gives it, is written within the limits of
the reader. So it is written as a text that is loaded as the same document.
-/

namespace Stylesheet

open Json (Confined Decoder Entry Fault FieldReader Schema SourceTree)

theorem Declaration.confined (levels : Nat) :
    Confined (Declaration.decode levels) levels Declaration.toJson :=
  Schema.confined_decode fun below _ =>
    ((Schema.confined_one (Decoder.confined_text below)).both
      (Schema.confined_one (Decoder.confined_text below))).map

namespace Rule

theorem confined_schema (selectorKey declarationsKey : Text) (levels : Nat) :
    (Rule.schema selectorKey declarationsKey).Confined levels
      (Rule.members selectorKey declarationsKey) :=
  ((Schema.confined_one (Decoder.confined_text levels)).both
    (Schema.confined_one (Decoder.confined_list fun below _ => Declaration.confined below))).map

theorem confined (levels : Nat) :
    Confined (Rule.decode levels) levels fun rule => .object rule.styleMembers :=
  Schema.confined_decode fun below _ => confined_schema _ _ below

theorem confined_step (levels : Nat) :
    Confined (Rule.decodeStep levels) levels fun rule => .object rule.stepMembers :=
  Schema.confined_decode fun below _ => confined_schema _ _ below

end Rule

theorem Keyframes.confined_schema (levels : Nat) :
    Keyframes.schema.Confined levels Keyframes.members :=
  ((Schema.confined_one (Decoder.confined_text levels)).both
    (Schema.confined_one (Decoder.confined_list fun below _ => Rule.confined_step below))).map

namespace Record

variable {σ α : Type}

theorem confined {content : Schema σ α} {name : Text} {members : α → List (Text × Json)}
    {levels : Nat} (h : ∀ below, levels = below + 1 → content.Confined below members) :
    Confined (Record.decode name content levels) levels (Record.toJson members) :=
  Schema.confined_decode fun below hbelow =>
    ((Schema.confined_oneOrNull (Decoder.confined_list fun lower _ =>
      Decoder.confined_text lower)).both
      ((Schema.confined_one (Decoder.confined_count below)).both (h below hbelow))).map

end Record

theorem Directive.confined (levels : Nat) :
    Confined (Directive.decode levels) levels (Record.toJson Directive.members) :=
  Record.confined fun below _ => Schema.confined_one (Decoder.confined_text below)

section Nested

variable {δ : Type} {nested : SourceTree → Except Fault δ} {levels : Nat} {toJson : δ → Json}

namespace MediaRule

theorem confined_nested (h : ∀ below, levels = below + 1 → Confined nested below toJson) :
    Confined (decodeNested nested levels) levels fun document =>
      .object [("at_rule".toList, toJson document)] := by
  have hone : Confined ((Schema.one "at_rule".toList fun _ => nested).decode [] levels) levels
      fun document => .object [("at_rule".toList, toJson document)] :=
    Schema.confined_decode fun below hbelow => Schema.confined_one (h below hbelow)
  intro tree document htree hdecode
  unfold decodeNested at hdecode
  split at hdecode
  · cases hdecode
  · exact hone tree document htree hdecode

/-- Of the two variants the one that was decoded bounds the rule. -/
theorem confined (h : ∀ below, levels = below + 1 → Confined nested below toJson) :
    Confined (decode nested levels) levels fun rule => (rule.map toJson).toJson := by
  intro tree rule htree hdecode
  obtain ⟨-, -, hdecode⟩ := Json.bind_eq_ok hdecode
  split at hdecode
  · next style hstyle =>
      obtain rfl := Except.ok.inj hdecode
      exact Rule.confined levels tree style htree hstyle
  · next document _ hnested =>
      obtain rfl := Except.ok.inj hdecode
      exact confined_nested h tree document htree hnested
  · cases hdecode

end MediaRule

namespace MediaBlock

theorem confined_schema (h : ∀ below, levels = below + 2 → Confined nested below toJson) :
    (schema nested).Confined levels fun block => (block.map toJson).members := by
  have hrules : Confined (Decoder.list (MediaRule.decode nested) levels) levels
      (Json.list fun rule => (rule.map toJson).toJson) :=
    Decoder.confined_list fun below hbelow => MediaRule.confined fun lower hlower =>
      h lower (by omega)
  have hmembers : ∀ block : MediaBlock δ, (block.map toJson).members =
      [("media_query".toList, .string block.query)] ++
        [("rules".toList, Json.list (fun rule => (rule.map toJson).toJson) block.rules)] := by
    intro block
    rw [members, map, Json.list, List.map_map]
    rfl
  simp only [hmembers]
  exact ((Schema.confined_one (Decoder.confined_text levels)).both
    (Schema.confined_one hrules)).map

end MediaBlock

namespace Sheet

/-- A sheet whose kinds can be written within `levels` brackets each. -/
structure Fits (toJson : δ → Json) (levels : Nat) (sheet : Sheet δ) : Prop where
  charset : ∀ records ∈ sheet.charset,
    (Json.list (Record.toJson Directive.members) records).Fits levels
  imports : ∀ records ∈ sheet.imports,
    (Json.list (Record.toJson Directive.members) records).Fits levels
  tailwind : ∀ records ∈ sheet.tailwind,
    (Json.list (Record.toJson Directive.members) records).Fits levels
  config : ∀ record ∈ sheet.config, (Record.toJson Directive.members record).Fits levels
  keyframes : ∀ records ∈ sheet.keyframes,
    (Json.list (Record.toJson Keyframes.members) records).Fits levels
  media : ∀ records ∈ sheet.media, (Json.list (fun record =>
    Record.toJson MediaBlock.members (record.map (MediaBlock.map toJson))) records).Fits levels
  styles : ∀ records ∈ sheet.styles,
    (Json.list (Record.toJson Rule.styleMembers) records).Fits levels

section KindField

variable {α : Type} {key : Text} {decode : Decoder α} {set : Option α → Sheet δ → Sheet δ}
  {write : α → Json}

theorem keeps_kindField {good : Sheet δ → Prop} (hdecode : Confined (decode levels) levels write)
    (hset : ∀ value draft, (∀ content ∈ value, (write content).Fits levels) → good draft →
      good (set value draft)) : (kindField key decode set).Keeps levels good := by
  refine Schema.keeps_field (Decoder.confined_orNull hdecode) fun value draft hvalue => ?_
  refine hset value draft ?_
  rintro content rfl
  exact hvalue

theorem kindEntry_fits {value : Option α} (h : ∀ content ∈ value, (write content).Fits levels) :
    (kindEntry key decode set write value).json.Fits levels := by
  cases value with
  | none => exact Json.fits_null
  | some content => exact h content rfl

theorem kindEntries_fits {value : Option α} (h : ∀ content ∈ value, (write content).Fits levels) :
    ∀ entry ∈ kindEntries key decode set write value, entry.json.Fits levels := by
  cases value with
  | none => exact fun entry hentry => absurd hentry List.not_mem_nil
  | some content => exact List.forall_mem_singleton.mpr (kindEntry_fits h)

end KindField

theorem Fits.entries {sheet : Sheet δ} (h : sheet.Fits toJson levels) :
    ∀ entry ∈ entries nested toJson sheet, entry.json.Fits levels := by
  rw [Sheet.entries]
  simp only [List.forall_mem_append]
  refine ⟨kindEntries_fits h.charset, ?_, kindEntries_fits h.config, kindEntries_fits h.keyframes,
    kindEntries_fits h.media, kindEntries_fits h.styles⟩
  rw [List.forall_mem_cons, List.forall_mem_singleton]
  exact ⟨kindEntry_fits h.imports, kindEntry_fits h.tailwind⟩

theorem keeps_fits (h : ∀ below, levels = below + 4 → Confined nested below toJson) :
    ∀ field ∈ (schema nested).fields, field.Keeps levels (Fits toJson levels) := by
  have hdirectives : Confined (Decoder.list Directive.decode levels) levels
      (Json.list (Record.toJson Directive.members)) :=
    Decoder.confined_list fun below _ => Directive.confined below
  have hkeyframes : Confined
      (Decoder.list (Record.decode "Keyframes".toList Keyframes.schema) levels) levels
      (Json.list (Record.toJson Keyframes.members)) :=
    Decoder.confined_list fun below _ => Record.confined fun lower _ =>
      Keyframes.confined_schema lower
  have hmedia : Confined
      (Decoder.list (Record.decode "MediaBlock".toList (MediaBlock.schema nested)) levels) levels
      (Json.list fun record =>
        Record.toJson MediaBlock.members (record.map (MediaBlock.map toJson))) :=
    Decoder.confined_list fun below hbelow => Record.confined fun lower hlower =>
      MediaBlock.confined_schema fun lowest hlowest => h lowest (by omega)
  have hstyles : Confined
      (Decoder.list (Record.decode "StyleRule".toList Rule.styleSchema) levels) levels
      (Json.list (Record.toJson Rule.styleMembers)) :=
    Decoder.confined_list fun below _ => Record.confined fun lower _ =>
      Rule.confined_schema _ _ lower
  simp only [schema, List.forall_mem_cons, List.not_mem_nil, IsEmpty.forall_iff, implies_true,
    and_true]
  refine ⟨keeps_kindField hdirectives ?_, keeps_kindField hdirectives ?_,
    keeps_kindField hdirectives ?_, keeps_kindField (Directive.confined levels) ?_,
    keeps_kindField hkeyframes ?_, keeps_kindField hmedia ?_, keeps_kindField hstyles ?_⟩
  · exact fun value draft hvalue hdraft => { hdraft with charset := hvalue }
  · exact fun value draft hvalue hdraft => { hdraft with imports := hvalue }
  · exact fun value draft hvalue hdraft => { hdraft with tailwind := hvalue }
  · exact fun value draft hvalue hdraft => { hdraft with config := hvalue }
  · exact fun value draft hvalue hdraft => { hdraft with keyframes := hvalue }
  · exact fun value draft hvalue hdraft => { hdraft with media := hvalue }
  · exact fun value draft hvalue hdraft => { hdraft with styles := hvalue }

theorem confined (h : ∀ below, levels = below + 5 → Confined nested below toJson) :
    Confined (decode nested levels) levels fun sheet => (sheet.map toJson).toJson := by
  simp only [entries_member nested]
  refine Schema.confined_decode fun below hbelow => ⟨Fits toJson below, ⟨?_, ?_, ?_⟩⟩
  · constructor <;> exact fun content hcontent => nomatch hcontent
  · exact keeps_fits fun lower hlower => h lower (by omega)
  · intro draft sheet hdraft hfinish
    obtain rfl : draft = sheet := Except.ok.inj hfinish
    exact List.forall_mem_map.mpr hdraft.entries

end Sheet

end Nested

namespace Document

/-- A document that is decoded within `levels` brackets is written within as many. -/
theorem confined (levels : Nat) : Confined (decode levels) levels toJson := by
  induction levels using Nat.strong_induction_on with
  | _ levels ih =>
      intro tree document htree hdecode
      unfold decode at hdecode
      split at hdecode
      · next levels =>
          obtain ⟨sheet, hsheet, rfl⟩ := Json.map_eq_ok hdecode
          rw [toJson_mk]
          have hnested : ∀ below, levels + 5 = below + 5 → Confined (decode levels) below toJson := by
            intro below hbelow
            rw [← Nat.add_right_cancel hbelow]
            exact ih levels (by omega)
          exact Sheet.confined hnested tree sheet htree hsheet
      · next hfew =>
          obtain ⟨sheet, hsheet, rfl⟩ := Json.map_eq_ok hdecode
          rw [toJson_mk]
          exact Sheet.confined (fun below hbelow => (hfew below hbelow).elim) tree sheet htree hsheet

/-- A document with lines of 64 bits is read back unless its brackets are more than 127 deep. -/
theorem ofJson?_print_eq_limited (layout : Json.Layout) {document : Document}
    (hnumbers : ∀ value ∈ document.toJson.numbers, value < 2 ^ 64) :
    ofJson? (document.print layout) = Json.limited (document.toJson.depth ≤ 127) document := by
  have hread : SourceTree.read (document.print layout) = (document.toJson.tree, some []) :=
    SourceTree.read_print layout hnumbers
  rw [ofJson?, Decoder.run, hread]
  change ((decode 127 document.toJson.tree).bind fun value => _) = _
  rw [document.recovers 127]
  exact Json.limited_bind_ok rfl

theorem ofJson?_print_of_fits (layout : Json.Layout) {document : Document}
    (h : document.toJson.Fits 127) : ofJson? (document.print layout) = .ok document := by
  rw [ofJson?_print_eq_limited layout h.numbers_lt]
  exact if_pos h.depth_le

/-- **Loading is a retraction of writing.** Whatever text a document was loaded from, it is written
in either layout as a text that is loaded as the same document. -/
theorem ofJson?_print_of_ofJson?_eq_ok {text : Text} {document : Document}
    (h : ofJson? text = .ok document) (layout : Json.Layout) :
    ofJson? (document.print layout) = .ok document :=
  ofJson?_print_of_fits layout (Decoder.fits_of_run (confined 127) h)

/-- A text with a key that no record has, a record written as an array, and members in another
order; the comment of the media block and most kinds are missing. -/
def loose : Text :=
  ("\x7b\"x\":[],\"styles\":[[null,3,\"a\",[]]]," ++
    "\"media\":[\x7b\"rules\":[\x7b\"at_rule\":\x7b\x7d\x7d]," ++
    "\"media_query\":\"b\",\"line\":1\x7d]\x7d").toList

/-- The tree of the text. -/
def looseTree : SourceTree :=
  let text (content : String) := SourceTree.string (.clean content.toList)
  let line (value : Nat) := SourceTree.number (.clean (.integer value))
  let array (items : List SourceTree) := SourceTree.array items .closed
  let object (members : List (String × SourceTree)) :=
    SourceTree.object (members.map fun member => (.clean member.1.toList, member.2)) .closed
  object [
    ("x", array []),
    ("styles", array [array [.null, line 3, text "a", array []]]),
    ("media", array [object [
      ("rules", array [object [("at_rule", object [])]]),
      ("media_query", text "b"),
      ("line", line 1)]])]

def loaded : Document :=
  ⟨{ media := some [⟨none, 1, ⟨"b".toList, [.atRule .empty]⟩⟩]
     styles := some [⟨none, 3, ⟨"a".toList, []⟩⟩] }⟩

theorem read_loose : SourceTree.read loose = (looseTree, some []) := by
  rfl

theorem decode_looseTree : decode 127 looseTree = .ok loaded := by
  rfl

theorem ofJson?_loose : ofJson? loose = .ok loaded := by
  rw [ofJson?, Decoder.run, read_loose]
  exact congrArg (Except.bind · fun document => .ok document) decode_looseTree

theorem ofJson?_print_loaded :
    ofJson? loose = .ok loaded ∧ ofJson? (loaded.print .pretty) = .ok loaded ∧
      ofJson? (loaded.print .compact) = .ok loaded :=
  ⟨ofJson?_loose, ofJson?_print_of_ofJson?_eq_ok ofJson?_loose .pretty,
    ofJson?_print_of_ofJson?_eq_ok ofJson?_loose .compact⟩

end Document

end Stylesheet
