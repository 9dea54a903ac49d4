import Mathlib.Data.List.Basic
import Stylesheet.Proofs.ParseDepth
import Stylesheet.Proofs.SheetReading

/-!
# Parsing a rendered document

A canonical document is what is parsed from its text, up to the lines. A nested document is rendered
with blank lines around its media block; the rule that holds it is read without them, so what is
parsed again is the bare block.
-/

namespace Stylesheet

section Canonical

variable {δ ε : Type} {valid : δ → Prop} {valid' : ε → Prop} {f : δ → ε}

theorem MediaBlock.Canonical.map {block : MediaBlock δ} (h : block.Canonical valid)
    (himp : ∀ nested, valid nested → valid' (f nested)) : (block.map f).Canonical valid' where
  query_ne_nil := h.query_ne_nil
  query_trimmed := h.query_trimmed
  query_plain := h.query_plain
  rules := by
    intro mapped hmapped
    obtain ⟨rule, hmem, rfl⟩ := List.mem_map.mp hmapped
    have hrule := h.rules rule hmem
    cases rule with
    | style rule => exact hrule
    | atRule nested => exact himp nested hrule

theorem Record.CanonicalKind.map {α β : Type} {content : α → Prop} {content' : β → Prop}
    {g : α → β} {records : Option (List (Record α))} (h : CanonicalKind content records)
    (himp : ∀ value, content value → content' (g value)) :
    CanonicalKind content' (records.map (List.map (Record.map g))) where
  ne_nil := map_ne_some_nil _ h.ne_nil
  record := by
    intro list hlist
    obtain ⟨records, hrecords, rfl⟩ := Option.map_eq_some_iff.mp hlist
    exact List.forall_mem_map.mpr fun record hmem => (h.record records hrecords record hmem).map himp

theorem Sheet.Canonical.map {sheet : Sheet δ} (h : sheet.Canonical valid)
    (himp : ∀ nested, valid nested → valid' (f nested)) : (sheet.map f).Canonical valid' where
  charset := h.charset
  imports := h.imports
  tailwind := h.tailwind
  config := h.config
  keyframes := h.keyframes
  media := h.media.map fun _ hblock => hblock.map himp
  styles := h.styles

theorem Sheet.Canonical.nested {sheet : Sheet δ} (h : sheet.Canonical valid) :
    ∀ nested ∈ sheet.nested, valid nested := by
  intro nested hmem
  obtain ⟨record, hrecord, hblock⟩ := List.mem_flatMap.mp hmem
  obtain ⟨rule, hrule, hnested⟩ := List.mem_filterMap.mp hblock
  have hcanonical := (h.media.getD record hrecord).content.rules rule hrule
  rw [MediaRule.nested?_eq_some_iff] at hnested
  rwa [hnested] at hcanonical

end Canonical

namespace Sheet

variable {δ ε : Type}

theorem unlined_map (f : δ → ε) (sheet : Sheet δ) : (sheet.map f).unlined = sheet.unlined.map f := by
  unfold unlined map mapMedia
  cases sheet.media with
  | none => rfl
  | some records => simp [Record.unlined, Record.map]

theorem render_unlined (sheet : Sheet Text) : sheet.unlined.render = sheet.render := by
  have hmap : ∀ {α : Type} (write : α → Text) (kind : Option (List (Record α))),
      ((kind.map (List.map Record.unlined)).getD []).map (Record.render write) =
        (kind.getD []).map (Record.render write) := by
    intro α write kind
    cases kind with
    | none => rfl
    | some records => exact List.map_map
  have hflatMap : ∀ {α : Type} (write : α → Text) (kind : Option (List (Record α))),
      ((kind.map (List.map Record.unlined)).getD []).flatMap (Record.render write) =
        (kind.getD []).flatMap (Record.render write) := by
    intro α write kind
    rw [List.flatMap_def, hmap, ← List.flatMap_def]
  have hkind : ∀ kind, sheet.unlined.renderKind kind = sheet.renderKind kind := by
    intro kind
    cases kind with
    | charset => exact hflatMap _ sheet.charset
    | imports => exact congrArg Text.unlines (hmap _ sheet.imports)
    | tailwind => exact congrArg Text.unlines (hmap _ sheet.tailwind)
    | config =>
        change (sheet.config.map Record.unlined).elim _ _ = _
        rw [Option.elim_map]
        rfl
    | keyframes => exact hflatMap _ sheet.keyframes
    | media => exact hflatMap _ sheet.media
    | styles => exact hflatMap _ sheet.styles
  unfold render
  simp only [hkind]

end Sheet

namespace Document

theorem render_mk (sheet : Sheet Document) : render ⟨sheet⟩ = (sheet.map render).render :=
  fold_mk Sheet.render sheet

theorem unlined_mk (sheet : Sheet Document) : unlined ⟨sheet⟩ = ⟨(sheet.map unlined).unlined⟩ :=
  fold_mk _ sheet

/-- The lines of a document are not part of its text. -/
theorem render_unlined (document : Document) : document.unlined.render = document.render := by
  induction document using Document.induction with
  | step sheet ih =>
      calc
        (unlined ⟨sheet⟩).render = ((sheet.map unlined).unlined.map render).render := by
          rw [unlined_mk, render_mk]
        _ = ((sheet.map unlined).map render).render := by
          rw [← Sheet.unlined_map, Sheet.render_unlined]
        _ = (sheet.map render).render := by
          rw [Sheet.map_map]
          exact congrArg Sheet.render (Sheet.map_congr ih)
        _ = render ⟨sheet⟩ := (render_mk sheet).symm

theorem parse_none_eq (text : Text) :
    parse none text = ⟨(Sheet.readKinds Kind.all text).map (parse none)⟩ := by
  have hnested : parseNested none 1 = some ∘ parse none := rfl
  rw [parse_eq_parseAt, parseAt_eq, hnested, ← Sheet.map_eq_expand]

/-- A text that is read as the text of a sheet is parsed as the sheet if its nested at-rules are. -/
theorem parse_unlined {text : Text} {sheet : Sheet Document}
    (hsheet : (Sheet.readKinds Kind.all text).unlined =
      (sheet.map fun nested => nested.render.trim).unlined)
    (hnested : ∀ nested ∈ sheet.nested, (parse none nested.render.trim).unlined = nested.unlined) :
    (parse none text).unlined = unlined ⟨sheet⟩ := by
  rw [parse_none_eq, unlined_mk, unlined_mk, Sheet.map_map, Sheet.unlined_map, hsheet,
    ← Sheet.unlined_map, Sheet.map_map]
  exact congrArg (fun sheet => Document.mk sheet.unlined) (Sheet.map_congr hnested)

section Nested

variable {line : Nat} {block : MediaBlock Document} {valid : Document → Prop}

theorem canonical_of_header (hne : block.query ≠ []) (htrimmed : Text.Trimmed block.query)
    (hquery : block.query.all MediaBlock.isHeaderChar)
    (hstyle : ∀ rule, .style rule ∈ block.rules → rule.Canonical)
    (hatRule : ∀ nested, .atRule nested ∈ block.rules → valid nested) : block.Canonical valid where
  query_ne_nil := hne
  query_trimmed := htrimmed
  query_plain := ⟨Text.not_mem_of_all hquery rfl, Text.not_mem_of_all hquery rfl,
    Text.not_mem_of_all hquery rfl, Text.not_mem_of_all hquery rfl,
    not_pair_of_not_mem (Text.not_mem_of_all hquery rfl)⟩
  rules := by
    intro rule hmem
    cases rule with
    | style rule => exact hstyle rule hmem
    | atRule nested => exact hatRule nested hmem

theorem render_wrapped (line : Nat) (block : MediaBlock Document) :
    render ⟨{ media := some [⟨none, line, block⟩] }⟩ =
      List.replicate 5 '\n' ++ (block.map render).core ++ List.replicate 3 '\n' := by
  have hblock : Record.render MediaBlock.render ⟨none, line, block.map render⟩ =
      (block.map render).core ++ ['\n'] := MediaBlock.render_eq _
  rw [render_mk]
  simp [Sheet.render, Sheet.renderKind, Kind.all, Sheet.map, Sheet.mapMedia, Record.map, hblock,
    Text.unlines]

theorem core_eq_atRuleText (block : MediaBlock Text) : block.core =
    MediaRule.atRuleText ("media".toList ++ ([' '] ++ block.query ++ [' ']))
      ('\n' :: (block.rules.flatMap MediaRule.render ++ ['\n'])) :=
  rfl

/-- The text of a nested document is a nested at-rule, and only the scan for media blocks could find
something in it. -/
theorem CanonicalNested.nestable {document : Document} (h : document.CanonicalNested) :
    MediaRule.Nestable document.render := by
  induction h with
  | wrap line block hne htrimmed hquery hstyle hatRule ih =>
      have hblock : (block.map render).Canonical MediaRule.Nestable :=
        (canonical_of_header hne htrimmed hquery hstyle ih).map fun _ hnested => hnested
      have hrun : ∀ c ∈ "media".toList ++ ([' '] ++ block.query ++ [' ']),
          MediaBlock.isHeaderChar c = true := by
        simp only [List.forall_mem_append, List.forall_mem_singleton]
        exact ⟨List.all_eq_true.mp rfl, ⟨rfl, List.all_eq_true.mp hquery⟩, rfl⟩
      rw [render_wrapped]
      constructor
      · refine ⟨_, _, _, _, congrArg (_ ++ · ++ _) (core_eq_atRuleText _), ?_, ?_,
          List.append_ne_nil_of_right_ne_nil _ (by simp), hrun,
          balanced_lines (MediaBlock.balanced_rules hblock)⟩
        · exact Text.blank_replicate rfl 5
        · exact Text.blank_replicate rfl 3
      · intro other word hother hword
        have hlead : Lacks word (List.replicate 5 '\n') := .of_not_mem (by decide)
        have htrail : Lacks word (List.replicate 3 '\n') := .of_not_mem (by decide)
        exact (hlead.append (hblock.core.lacks other word hother hword)).append htrail

theorem trim_render_wrapped (line : Nat) (block : MediaBlock Document) :
    Text.trim (render ⟨{ media := some [⟨none, line, block⟩] }⟩) = (block.map render).core := by
  rw [render_wrapped, core_eq_atRuleText]
  exact MediaRule.trim_atRuleText (Text.blank_replicate rfl 5) (Text.blank_replicate rfl 3) _ _

theorem CanonicalNested.parse_trim_render {document : Document} (h : document.CanonicalNested) :
    (parse none document.render.trim).unlined = document.unlined := by
  induction h with
  | wrap line block hne htrimmed hquery hstyle hatRule ih =>
      have hblock : (block.map render).Canonical MediaRule.Nestable :=
        (canonical_of_header hne htrimmed hquery hstyle fun nested hnested =>
          (hatRule nested hnested).nestable).map fun _ hnested => hnested
      apply parse_unlined
      · have hmap : (fun nested : Document => nested.render.trim) = Text.trim ∘ render := rfl
        rw [trim_render_wrapped, MediaBlock.readKinds_core hblock, hmap, ← Sheet.map_map]
        rfl
      · intro nested hmem
        obtain ⟨record, hrecord, hblock⟩ := List.mem_flatMap.mp hmem
        obtain rfl := List.mem_singleton.mp hrecord
        obtain ⟨rule, hrule, hnested⟩ := List.mem_filterMap.mp hblock
        rw [MediaRule.nested?_eq_some_iff] at hnested
        subst hnested
        exact ih nested hrule

end Nested

/-- **Canonical documents survive rendering.** What is parsed from the text of a canonical document
is the document but for the lines, so rendering it again gives the same text. -/
theorem parse_render (document : Document) (h : document.Canonical) :
    (parse none document.render).unlined = document.unlined ∧
      (parse none document.render).render = document.render := by
  obtain ⟨sheet⟩ := document
  have hsheet : sheet.Canonical CanonicalNested := h
  have hrendered : (sheet.map render).Canonical MediaRule.Nestable :=
    hsheet.map fun nested hnested => hnested.nestable
  have hread : (Sheet.readKinds Kind.all (render ⟨sheet⟩)).unlined =
      (sheet.map fun nested => nested.render.trim).unlined := by
    rw [render_mk, hrendered.readKinds_render, Sheet.map_map]
    rfl
  have hparse : (parse none (render ⟨sheet⟩)).unlined = unlined ⟨sheet⟩ :=
    parse_unlined hread fun nested hnested => (hsheet.nested nested hnested).parse_trim_render
  refine ⟨hparse, ?_⟩
  calc
    (parse none (render ⟨sheet⟩)).render = (parse none (render ⟨sheet⟩)).unlined.render :=
      (render_unlined _).symm
    _ = (unlined ⟨sheet⟩).render := by rw [hparse]
    _ = render ⟨sheet⟩ := render_unlined _

/-- A document with comments, a keyframe step for two places, and a media block in a media block. -/
def layered : Document :=
  ⟨{ charset := some [⟨none, 4, "utf-8".toList⟩]
     keyframes := some [⟨some ["a".toList, "b\nc".toList], 9, ⟨"spin".toList,
       [⟨"from, 5%".toList, [⟨"top".toList, "0".toList⟩]⟩]⟩⟩]
     media := some [⟨none, 2, ⟨"print".toList, [
       .style ⟨"p:hover".toList, [⟨"color".toList, "red".toList⟩]⟩,
       .atRule ⟨{ media := some [⟨none, 1, ⟨"(hover)".toList, []⟩⟩] }⟩]⟩⟩]
     styles := some [⟨some ["s".toList], 3, ⟨"a".toList, [⟨[], []⟩]⟩⟩] }⟩

theorem canonical_layered : layered.Canonical := by
  have hinner : CanonicalNested ⟨{ media := some [⟨none, 1, ⟨"(hover)".toList, []⟩⟩] }⟩ :=
    .wrap 1 ⟨"(hover)".toList, []⟩ (by decide) (by decide) (by decide)
      (fun _ hmem => absurd hmem List.not_mem_nil) (fun _ hmem => absurd hmem List.not_mem_nil)
  have hstyle : Rule.Canonical ⟨"p:hover".toList, [⟨"color".toList, "red".toList⟩]⟩ := by decide
  refine ⟨by decide, by decide, by decide, by decide, by decide, ⟨by simp [layered], ?_⟩, by decide⟩
  intro records hrecords record hmem
  obtain rfl := Option.some.inj hrecords
  obtain rfl := List.mem_singleton.mp hmem
  refine ⟨by decide, by decide, by decide, by decide, by decide, ?_⟩
  intro rule hrule
  rcases List.mem_pair.mp hrule with rfl | rfl
  · exact hstyle
  · exact hinner

theorem parse_render_layered :
    layered.Canonical ∧ (parse none layered.render).unlined = layered.unlined ∧
      (parse none layered.render).render = layered.render :=
  ⟨canonical_layered, parse_render layered canonical_layered⟩

end Document

end Stylesheet
