import Stylesheet.Config
import Stylesheet.Proofs.ParseDepth
import Stylesheet.Proofs.SheetKinds
import Stylesheet.Proofs.StyleRuleLemmas

/-!
# Appending text

Text that is appended to a source adds records behind those that were recognized before, and changes
none of these. Each kind is read by one scan, so this comes down to the scans being steady: a header
or directive that more text completes was, before that, the last thing in the source.
-/

namespace Stylesheet

namespace Sheet

variable {δ ε : Type}

/-- Each kind of a sheet is a prefix of the same kind of another one, an absent kind being empty. -/
structure IsPrefix (front sheet : Sheet δ) : Prop where
  charset : front.charset.getD [] <+: sheet.charset.getD []
  imports : front.imports.getD [] <+: sheet.imports.getD []
  tailwind : front.tailwind.getD [] <+: sheet.tailwind.getD []
  config : ∀ record, front.config = some record → sheet.config = some record
  keyframes : front.keyframes.getD [] <+: sheet.keyframes.getD []
  media : front.media.getD [] <+: sheet.media.getD []
  styles : front.styles.getD [] <+: sheet.styles.getD []

theorem IsPrefix.expand {front sheet : Sheet δ} (h : front.IsPrefix sheet) (f : δ → Option ε) :
    (front.expand f).IsPrefix (sheet.expand f) where
  charset := h.charset
  imports := h.imports
  tailwind := h.tailwind
  config := h.config
  keyframes := h.keyframes
  media := by
    have hgetD : ∀ media : Option (List (Record (MediaBlock δ))),
        (media.map (List.map (Record.map (MediaBlock.expand f)))).getD [] =
          (media.getD []).map (Record.map (MediaBlock.expand f)) := by
      intro media
      cases media <;> rfl
    change ((front.media.map _).getD []) <+: ((sheet.media.map _).getD [])
    rw [hgetD, hgetD]
    exact h.media.map _
  styles := h.styles

end Sheet

theorem Directive.records_isPrefix {pattern : Pattern} (h : Steady Reading.value pattern.move)
    (text more : Text) : records pattern text <+: records pattern (text ++ more) := by
  have hscan := (h.scan_isPrefix text more).map (Site.record .strict)
  rwa [List.map_map, List.map_map] at hscan

theorem Keyframes.records_isPrefix (text more : Text) : records text <+: records (text ++ more) := by
  have hsteady : Steady ofBlock (Block.move header) :=
    Block.steady_move header_reads unnested_header fun _ _ _ => rfl
  have hscan := (hsteady.scan_isPrefix text more).map (Site.record .loose)
  rwa [List.map_map, List.map_map] at hscan

theorem MediaBlock.records_isPrefix (text more : Text) :
    records text <+: records (text ++ more) := by
  have hsteady : Steady ofBlock (Block.move header) :=
    Block.steady_move header_reads unnested_header fun _ _ _ => rfl
  have hscan := (hsteady.scan_isPrefix text more).map (Site.record .strict)
  rwa [List.map_map, List.map_map] at hscan

theorem StyleRule.records_isPrefix (text more : Text) : records text <+: records (text ++ more) := by
  have hscan := (steady_move.scan_isPrefix text more).map (Site.record .strict)
  rwa [List.map_map, List.map_map] at hscan

theorem Sheet.readKinds_all_isPrefix (text more : Text) :
    (readKinds Kind.all text).IsPrefix (readKinds Kind.all (text ++ more)) := by
  rw [readKinds_all, readKinds_all]
  refine ⟨?_, ?_, ?_, ?_, ?_, ?_, ?_⟩
  · simpa only [getD_present] using Directive.records_isPrefix Directive.charset_steady text more
  · simpa only [getD_present] using Directive.records_isPrefix Directive.imports_steady text more
  · simpa only [getD_present] using Directive.records_isPrefix Directive.tailwind_steady text more
  · intro record hrecord
    obtain ⟨others, hothers⟩ := Directive.records_isPrefix Directive.config_steady text more
    dsimp only at hrecord ⊢
    rw [← hothers, List.head?_append, hrecord, Option.some_or]
  · simpa only [getD_present] using Keyframes.records_isPrefix text more
  · simpa only [getD_present] using MediaBlock.records_isPrefix text more
  · simpa only [getD_present] using StyleRule.records_isPrefix text more

/-- **Appending text.** Whatever was recognized in a text is recognized in every longer text that
begins with it, record for record, and comes first there. -/
theorem Config.parse_append_isPrefix (config : Config) (text more : Text) :
    (config.parse text).sheet.IsPrefix (config.parse (text ++ more)).sheet := by
  unfold Config.parse
  rw [Document.parse_eq_parseAt, Document.parse_eq_parseAt, Document.parseAt_eq,
    Document.parseAt_eq]
  exact (Sheet.readKinds_all_isPrefix text more).expand _

end Stylesheet
