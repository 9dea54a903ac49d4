import Stylesheet.Proofs.JsonRoundTrip
import Stylesheet.Proofs.ParseDepth
import Stylesheet.Proofs.ScanLemmas
import Stylesheet.Proofs.SheetKinds

/-!
# The lines of a parsed document

No record of a parsed document stands on a line that its text is too short for.
-/

namespace Stylesheet

namespace Sheet

variable {α β δ ε : Type} {move : Text → Move α} {make : Site α → Record β}

theorem lines_expand (f : δ → Option ε) (sheet : Sheet δ) : (sheet.expand f).lines = sheet.lines := by
  have hmedia : recordLines (sheet.expand f).media = recordLines sheet.media := by
    obtain ⟨_, _, _, _, _, media, _⟩ := sheet
    cases media with
    | none => rfl
    | some records => exact List.map_map
  rw [lines, hmedia]
  rfl

theorem line_le_of_mem_map (hline : ∀ site, (make site).line = site.line) (text : Text) :
    ∀ record ∈ (scan move text).map make, record.line ≤ text.length := by
  refine List.forall_mem_map.mpr fun site hsite => ?_
  rw [hline]
  exact line_le_of_mem_scan hsite

theorem recordLines_present (hline : ∀ site, (make site).line = site.line) (text : Text) :
    recordLines (present ((scan move text).map make)) = (scan move text).map Site.line := by
  rw [recordLines, getD_present, List.map_map]
  exact List.map_congr_left fun site _ => hline site

theorem recordLines_le (hline : ∀ site, (make site).line = site.line) (text : Text) :
    ∀ line ∈ recordLines (present ((scan move text).map make)), line ≤ text.length := by
  rw [recordLines_present hline]
  exact List.forall_mem_map.mpr fun site => line_le_of_mem_scan

theorem lines_readKinds_le (text : Text) :
    ∀ line ∈ (readKinds Kind.all text).lines, line ≤ text.length := by
  have hrecords : ∀ record ∈ Directive.records Directive.config text, record.line ≤ text.length :=
    line_le_of_mem_map (fun site => rfl) text
  have hconfig : ∀ line ∈ (Directive.records Directive.config text).head?.toList.map Record.line,
      line ≤ text.length :=
    List.forall_mem_map.mpr fun record hrecord =>
      hrecords record (List.mem_of_mem_head? (Option.mem_toList.mp hrecord))
  rw [readKinds_all, lines]
  simp only [List.forall_mem_append]
  refine ⟨⟨⟨⟨⟨⟨?_, ?_⟩, ?_⟩, hconfig⟩, ?_⟩, ?_⟩, ?_⟩
  · exact recordLines_le (fun site => rfl) text
  · exact recordLines_le (fun site => rfl) text
  · exact recordLines_le (fun site => rfl) text
  · exact recordLines_le (fun site => rfl) text
  · exact recordLines_le (fun site => rfl) text
  · exact recordLines_le (fun site => rfl) text

end Sheet

namespace Document

/-- The lines of a nested at-rule are counted in its own text, which is shorter. -/
theorem lines_parseAt_le (cap : Option Nat) (depth : Nat) (text : Text) :
    ∀ line ∈ (parseAt cap depth text).lines, line ≤ text.length := by
  induction hlength : text.length using Nat.strong_induction_on generalizing depth text with
  | _ length ih =>
      intro line hline
      rw [parseAt_eq, lines_mk, Sheet.lines_expand, Sheet.nested_expand] at hline
      rcases List.mem_append.mp hline with hline | hline
      · rw [← hlength]
        exact Sheet.lines_readKinds_le text line hline
      · obtain ⟨document, hdocument, hline⟩ := List.mem_flatMap.mp hline
        obtain ⟨nested, hnested, hparse⟩ := List.mem_filterMap.mp hdocument
        have hshorter := Sheet.length_lt_of_mem_nested hnested
        rw [hlength] at hshorter
        obtain rfl := parseAt_of_parseNested hparse
        exact (ih nested.length hshorter (depth + 1) nested rfl line hline).trans
          (Nat.le_of_lt hshorter)

end Document

end Stylesheet
