import Mathlib.Data.List.Forall2
import Stylesheet.Proofs.Fragments
import Stylesheet.Proofs.StepForms

/-!
# Places of keyframe steps

Each step of a parsed document stands somewhere in the source: the document around it was parsed from
a piece of the source, its block was found in that piece, and the step in the interior of the block.
-/

namespace Stylesheet

namespace Keyframes

/-- The steps of a block, each with all the text before it in which the block was found. -/
def stepSites (block : Site Block) : List (Site Rule) :=
  scanFrom stepMove 0 (block.content.header.text.reverse ++ block.before) block.content.interior

/-- A step in a source, right behind `front`, with no character of a selector before it. -/
structure StepIn (source front run body : Text) (step : Rule) : Prop where
  form : ∃ ahead rest, source = front ++ ahead ∧ StepForm ahead run body rest step
  front_last : ∀ c ∈ front.getLast?, isStepChar c = false

theorem StepIn.unique {source front run body run' body' : Text} {step step' : Rule}
    (h : StepIn source front run body step) (h' : StepIn source front run' body' step') :
    run = run' ∧ body = body' := by
  obtain ⟨ahead, rest, rfl, hform⟩ := h.form
  obtain ⟨ahead', rest', hsource, hform'⟩ := h'.form
  obtain rfl := List.append_cancel_left hsource
  exact hform.unique hform'

variable {block : Site Block} {site : Site Rule} {source text : Text}

theorem map_content_stepSites (block : Site Block) :
    (stepSites block).map Site.content = (ofBlock block.content).steps :=
  scanFrom_contents stepMove 0 _ _ _

theorem head?_reverse_header {reading : Reading}
    (h : Pattern.WordForm "@keyframes".toList true isNameChar '{' reading.lead reading.value
      reading.tail) (before : Text) : (reading.text.reverse ++ before).head? = some '{' := by
  obtain ⟨gap, htail, -⟩ := h.tail
  simp [Reading.text, htail]

/-- A step of a block stands in whatever source the text of the block stands in. -/
theorem exists_stepIn (hblock : block ∈ Block.sites header text) (hsite : site ∈ stepSites block)
    (lead trail : Text) : ∃ run body,
      StepIn (lead ++ text ++ trail) (lead ++ site.before.reverse) run body site.content := by
  obtain ⟨passed, ahead, length, rfl, hpassed, hmove⟩ := mem_scan hblock
  obtain ⟨behind, rfl, -⟩ := Block.text_eq_append header_reads hmove
  have hform := header_reads.form_of_eq_some (Block.move_eq_take_iff.mp hmove).1
  have hhead := head?_reverse_header hform block.before
  have hopening : ∀ c ∈ (block.content.header.text.reverse ++ block.before).head?,
      isStepChar c = false := by
    rw [hhead]
    rintro c ⟨⟩
    decide
  obtain ⟨ahead, run, body, rest, htext, hstep, hbefore⟩ := exists_form_of_mem_scanFrom hopening hsite
  have hinterior : passed ++ block.content.header.text ++ block.content.interior =
      site.before.reverse ++ ahead := by
    simpa [hpassed] using htext
  refine ⟨run, body, ⟨ahead ++ '}' :: (behind ++ trail), _, ?_, hstep.append _⟩, ?_⟩
  · calc
      lead ++ (passed ++ (block.content.text ++ behind)) ++ trail =
          lead ++ (passed ++ block.content.header.text ++ block.content.interior) ++
            '}' :: (behind ++ trail) := by simp [Block.text]
      _ = lead ++ (site.before.reverse ++ ahead) ++ '}' :: (behind ++ trail) := by rw [hinterior]
      _ = lead ++ site.before.reverse ++ (ahead ++ '}' :: (behind ++ trail)) := by simp
  · have hne : site.before ≠ [] := by
      intro hnil
      obtain ⟨_, _, _, _, hsplit, -⟩ := mem_scanFrom hsite
      rw [hnil] at hsplit
      rw [(List.append_eq_nil_iff.mp hsplit.symm).2] at hhead
      contradiction
    obtain ⟨c, before, hsplit⟩ := List.exists_cons_of_ne_nil hne
    rw [hsplit] at hbefore ⊢
    rw [List.reverse_cons, ← List.append_assoc, List.getLast?_concat]
    exact hbefore

end Keyframes

namespace Document

/-- All levels, with the place in the source. -/
theorem Holds.exists_piece {cap : Option Nat} {source : Text} {depth : Nat} {inner : Document}
    (h : (parseAt cap 0 source).Holds depth inner) :
    ∃ lead text trail, source = lead ++ text ++ trail ∧ (depth = 0 → text = source) ∧
      inner = parseAt cap depth text := by
  obtain ⟨text, ⟨lead, trail, hsource⟩, hinner⟩ := h.exists_text
  cases h with
  | whole => exact ⟨[], source, [], by simp, fun _ => rfl, rfl⟩
  | @atRule depth =>
      have hdepth : depth + 1 = 0 → text = source := fun h => absurd h depth.succ_ne_zero
      exact ⟨lead, text, trail, hsource.symm, hdepth, hinner⟩

theorem keyframes_parseAt (cap : Option Nat) (depth : Nat) (text : Text) :
    (parseAt cap depth text).sheet.keyframes.getD [] = Keyframes.records text := by
  rw [sheet_parseAt, getD_present]

/-- Where a keyframes record of a document comes from: behind `lead` begins the piece of the source
that the document was parsed from, and in this piece the block was found. -/
structure Origin (cap : Option Nat) (source : Text) (depth : Nat) (inner : Document)
    (record : Record Keyframes) (lead : Text) (block : Site Block) : Prop where
  piece : ∃ text trail, source = lead ++ text ++ trail ∧ (depth = 0 → text = source) ∧
    inner = parseAt cap depth text ∧ block ∈ Block.sites Keyframes.header text
  record_eq : record = (block.map Keyframes.ofBlock).record .loose

variable {cap : Option Nat} {source : Text} {depth : Nat} {inner : Document}
  {record : Record Keyframes} {lead : Text} {block : Site Block}

theorem Holds.exists_origin (h : (parseAt cap 0 source).Holds depth inner)
    (hrecord : record ∈ inner.sheet.keyframes.getD []) :
    ∃ lead block, Origin cap source depth inner record lead block := by
  obtain ⟨lead, text, trail, hsource, hdepth, rfl⟩ := h.exists_piece
  rw [keyframes_parseAt] at hrecord
  obtain ⟨block, hblock, rfl⟩ := List.mem_map.mp hrecord
  exact ⟨lead, block, ⟨text, trail, hsource, hdepth, rfl, hblock⟩, rfl⟩

namespace Origin

/-- The piece of the outermost document is the whole source. -/
theorem whole (h : Origin cap source 0 inner record lead block) :
    lead = [] ∧ block ∈ Block.sites Keyframes.header source := by
  obtain ⟨text, trail, hsource, htext, -, hblock⟩ := h.piece
  obtain rfl := htext rfl
  have hlength := congrArg List.length hsource
  simp only [List.length_append] at hlength
  exact ⟨List.length_eq_zero_iff.mp (by omega), hblock⟩

theorem steps_eq (h : Origin cap source depth inner record lead block) :
    record.content.steps = (Keyframes.stepSites block).map Site.content := by
  rw [h.record_eq, Keyframes.map_content_stepSites]
  rfl

theorem forall₂_stepIn (h : Origin cap source depth inner record lead block) :
    List.Forall₂ (fun site step => ∃ run body,
        Keyframes.StepIn source (lead ++ site.before.reverse) run body step)
      (Keyframes.stepSites block) record.content.steps := by
  rw [h.steps_eq]
  refine List.forall₂_map_right_iff.mpr (List.forall₂_same.mpr fun site hsite => ?_)
  obtain ⟨text, trail, rfl, -, -, hblock⟩ := h.piece
  exact Keyframes.exists_stepIn hblock hsite lead trail

end Origin

end Document

end Stylesheet
