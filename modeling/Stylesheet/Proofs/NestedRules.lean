import Mathlib.Data.List.Basic
import Stylesheet.Document

/-!
# Nested at-rules

What a sheet nests, and induction over documents: to prove something of a document, prove it from
the documents nested in its sheet.
-/

namespace Stylesheet

variable {δ ε ζ : Type}

namespace MediaRule

def nested? : MediaRule δ → Option δ
  | .style _ => none
  | .atRule nested => some nested

theorem nested?_eq_some_iff {rule : MediaRule δ} {nested : δ} :
    rule.nested? = some nested ↔ rule = .atRule nested := by
  cases rule <;> simp [nested?]

theorem nested?_map (f : δ → ε) (rule : MediaRule δ) : (rule.map f).nested? = rule.nested?.map f := by
  cases rule <;> rfl

theorem nested?_expand (f : δ → Option ε) (rule : MediaRule δ) :
    (rule.expand f).bind nested? = rule.nested?.bind f := by
  cases rule with
  | style rule => rfl
  | atRule nested => cases hnested : f nested <;> simp [expand, nested?, hnested]

theorem expand_congr {f g : δ → Option ε} {rule : MediaRule δ}
    (h : ∀ nested, rule.nested? = some nested → f nested = g nested) :
    rule.expand f = rule.expand g := by
  cases rule with
  | style rule => rfl
  | atRule nested => simp [expand, h nested rfl]

end MediaRule

namespace MediaBlock

/-- The nested at-rules of a block, in order. -/
def nested (block : MediaBlock δ) : List δ :=
  block.rules.filterMap MediaRule.nested?

theorem nested_map (f : δ → ε) (block : MediaBlock δ) :
    (block.map f).nested = block.nested.map f := by
  simp only [nested, map, List.filterMap_map, List.map_filterMap]
  congr 1
  funext rule
  exact rule.nested?_map f

theorem nested_expand (f : δ → Option ε) (block : MediaBlock δ) :
    (block.expand f).nested = block.nested.filterMap f := by
  simp only [nested, expand, List.filterMap_filterMap]
  congr 1
  funext rule
  exact rule.nested?_expand f

theorem expand_congr {f g : δ → Option ε} {block : MediaBlock δ}
    (h : ∀ nested ∈ block.nested, f nested = g nested) : block.expand f = block.expand g := by
  unfold expand
  congr 1
  refine List.filterMap_congr fun rule hrule => MediaRule.expand_congr fun nested hnested => ?_
  exact h nested (List.mem_filterMap.mpr ⟨rule, hrule, hnested⟩)

theorem expand_map (f : δ → ε) (g : ε → Option ζ) (block : MediaBlock δ) :
    (block.map f).expand g = block.expand (g ∘ f) := by
  unfold expand map
  rw [List.filterMap_map]
  congr 2
  funext rule
  cases rule <;> rfl

theorem expand_expand (f : δ → Option ε) (g : ε → Option ζ) (block : MediaBlock δ) :
    (block.expand f).expand g = block.expand fun nested => (f nested).bind g := by
  unfold expand
  rw [List.filterMap_filterMap]
  congr 2
  funext rule
  cases rule with
  | style rule => rfl
  | atRule nested => cases hnested : f nested <;> simp [MediaRule.expand, hnested]

theorem expand_some (block : MediaBlock δ) : block.expand some = block := by
  obtain ⟨query, rules⟩ := block
  unfold expand
  congr 1
  induction rules with
  | nil => rfl
  | cons rule rules ih => cases rule <;> simpa [MediaRule.expand] using ih

end MediaBlock

namespace Sheet

/-- The nested at-rules of a sheet, in order. -/
def nested (sheet : Sheet δ) : List δ :=
  (sheet.media.getD []).flatMap fun record => record.content.nested

theorem mapMedia_congr {f g : MediaBlock δ → MediaBlock ε} {sheet : Sheet δ}
    (h : ∀ record ∈ sheet.media.getD [], f record.content = g record.content) :
    sheet.mapMedia f = sheet.mapMedia g := by
  unfold mapMedia
  congr 1
  cases hmedia : sheet.media with
  | none => rfl
  | some records =>
      refine congrArg some (List.map_congr_left fun record hrecord => ?_)
      exact congrArg (Record.mk record.comment record.line) (h record (by simpa [hmedia] using hrecord))

theorem mapMedia_mapMedia (f : MediaBlock δ → MediaBlock ε) (g : MediaBlock ε → MediaBlock ζ)
    (sheet : Sheet δ) : (sheet.mapMedia f).mapMedia g = sheet.mapMedia (g ∘ f) := by
  unfold mapMedia
  cases hmedia : sheet.media with
  | none => rfl
  | some records => simp [Record.map, Function.comp_def]

theorem mapMedia_id (sheet : Sheet δ) : sheet.mapMedia id = sheet := by
  obtain ⟨_, _, _, _, _, media, _⟩ := sheet
  cases media with
  | none => rfl
  | some records =>
      have hid : Record.map (α := MediaBlock δ) id = id := funext fun record => rfl
      simp [mapMedia, hid]

theorem nested_mapMedia (f : MediaBlock δ → MediaBlock ε) (sheet : Sheet δ) :
    (sheet.mapMedia f).nested =
      (sheet.media.getD []).flatMap fun record => (f record.content).nested := by
  unfold nested mapMedia
  cases sheet.media with
  | none => rfl
  | some records => simp [List.flatMap_map, Record.map]

theorem nested_map (f : δ → ε) (sheet : Sheet δ) : (sheet.map f).nested = sheet.nested.map f := by
  rw [map, nested_mapMedia, nested, List.map_flatMap]
  simp only [MediaBlock.nested_map]

theorem nested_expand (f : δ → Option ε) (sheet : Sheet δ) :
    (sheet.expand f).nested = sheet.nested.filterMap f := by
  rw [expand, nested_mapMedia, nested, List.filterMap_flatMap]
  simp only [MediaBlock.nested_expand]

theorem expand_congr {f g : δ → Option ε} {sheet : Sheet δ}
    (h : ∀ nested ∈ sheet.nested, f nested = g nested) : sheet.expand f = sheet.expand g :=
  mapMedia_congr fun record hrecord => MediaBlock.expand_congr fun nested hnested =>
    h nested (List.mem_flatMap.mpr ⟨record, hrecord, hnested⟩)

theorem expand_map (f : δ → ε) (g : ε → Option ζ) (sheet : Sheet δ) :
    (sheet.map f).expand g = sheet.expand (g ∘ f) := by
  unfold map expand
  rw [mapMedia_mapMedia]
  congr 1
  funext block
  exact block.expand_map f g

theorem expand_expand (f : δ → Option ε) (g : ε → Option ζ) (sheet : Sheet δ) :
    (sheet.expand f).expand g = sheet.expand fun nested => (f nested).bind g := by
  unfold expand
  rw [mapMedia_mapMedia]
  congr 1
  funext block
  exact block.expand_expand f g

theorem expand_merge (f : δ → Option ε) (sheet other : Sheet δ) :
    (sheet.merge other).expand f = (sheet.expand f).merge (other.expand f) := by
  obtain ⟨_, _, _, _, _, media, _⟩ := sheet
  obtain ⟨_, _, _, _, _, others, _⟩ := other
  cases media <;> cases others <;> simp [expand, mapMedia, merge, append]

theorem expand_some (sheet : Sheet δ) : sheet.expand some = sheet := by
  have hid : MediaBlock.expand (δ := δ) some = id := funext MediaBlock.expand_some
  rw [expand, hid, mapMedia_id]

theorem map_eq_expand (f : δ → ε) (sheet : Sheet δ) : sheet.map f = sheet.expand (some ∘ f) := by
  rw [← expand_map, expand_some]

theorem map_congr {f g : δ → ε} {sheet : Sheet δ} (h : ∀ nested ∈ sheet.nested, f nested = g nested) :
    sheet.map f = sheet.map g := by
  rw [map_eq_expand, map_eq_expand]
  exact expand_congr fun nested hnested => congrArg some (h nested hnested)

theorem map_map (f : δ → ε) (g : ε → ζ) (sheet : Sheet δ) :
    (sheet.map f).map g = sheet.map (g ∘ f) := by
  rw [map_eq_expand g, expand_map, map_eq_expand]
  rfl

end Sheet

/-- Induction over what is nested in a document. -/
theorem Document.induction {motive : Document → Prop}
    (step : ∀ sheet : Sheet Document, (∀ nested ∈ sheet.nested, motive nested) → motive ⟨sheet⟩)
    (document : Document) : motive document := by
  refine @Document.rec motive (fun sheet => ∀ nested ∈ sheet.nested, motive nested)
    (fun media => ∀ record ∈ media.getD [], ∀ nested ∈ record.content.nested, motive nested)
    (fun records => ∀ record ∈ records, ∀ nested ∈ record.content.nested, motive nested)
    (fun record => ∀ nested ∈ record.content.nested, motive nested)
    (fun block => ∀ nested ∈ block.nested, motive nested)
    (fun rules => ∀ rule ∈ rules, ∀ nested, rule.nested? = some nested → motive nested)
    (fun rule => ∀ nested, rule.nested? = some nested → motive nested)
    step ?sheet ?absent ?records ?nil ?cons ?record ?block ?noRule ?rule ?style ?atRule document
  case sheet =>
    intro _ _ _ _ _ media _ hmedia nested hnested
    obtain ⟨record, hrecord, hnested⟩ := List.mem_flatMap.mp hnested
    exact hmedia record hrecord nested hnested
  case absent => simp
  case records => exact fun records hrecords => hrecords
  case nil => simp
  case cons =>
    intro record records hrecord hrecords other hother
    rcases List.mem_cons.mp hother with rfl | hother
    · exact hrecord
    · exact hrecords other hother
  case record => exact fun comment line block hblock => hblock
  case block =>
    intro query rules hrules nested hnested
    obtain ⟨rule, hrule, hnested⟩ := List.mem_filterMap.mp hnested
    exact hrules rule hrule nested hnested
  case noRule => simp
  case rule =>
    intro rule rules hrule hrules other hother
    rcases List.mem_cons.mp hother with rfl | hother
    · exact hrule
    · exact hrules other hother
  case style => simp [MediaRule.nested?]
  case atRule =>
    intro nested hnested other hother
    obtain rfl := Option.some.inj hother
    exact hnested

end Stylesheet
