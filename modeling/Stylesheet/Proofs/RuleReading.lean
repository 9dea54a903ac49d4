import Mathlib.Data.List.Basic
import Stylesheet.Proofs.DeclarationReading
import Stylesheet.Proofs.HeaderForms
import Stylesheet.Proofs.StepForms

/-!
# Reading written rules

The steps of a keyframes block and the rules of a media block are read as they were written, and a
nested at-rule is read as its text without the blanks around it.
-/

namespace Stylesheet

namespace Rule

/-- What stands between the braces of a rule. -/
def interior (indent : Nat) (tail : Text) (rule : Rule) : Text :=
  '\n' :: (Declaration.renderAll indent rule.declarations ++ tail)

/-- A rule from its selector to its closing brace. -/
def block (indent : Nat) (tail : Text) (rule : Rule) : Text :=
  rule.selector ++ [' '] ++ ('{' :: rule.interior indent tail ++ ['}'])

theorem renderInner_eq (rule : Rule) :
    rule.renderInner = '\t' :: (rule.block 2 "  ".toList ++ ['\n']) := by
  simp [renderInner, block, interior]

theorem render_eq (rule : Rule) : rule.render = rule.block 1 [] ++ "\n\n".toList := by
  simp [render, block, interior]

variable {rule : Rule} {tail : Text}

theorem balanced_interior (h : ∀ declaration ∈ rule.declarations, declaration.Canonical)
    (indent : Nat) (htail : Blank tail) : Balanced (rule.interior indent tail) := by
  have hdeclarations : Balanced (Declaration.renderAll indent rule.declarations) :=
    .flatMap fun declaration hmem => (h declaration hmem).balanced_render indent
  exact Balanced.append (.of_blank blank_feed) (hdeclarations.append (.of_blank htail))

theorem balanced_block (h : ∀ declaration ∈ rule.declarations, declaration.Canonical)
    (hopening : '{' ∉ rule.selector) (hclosing : '}' ∉ rule.selector)
    (hcomment : ¬['/', '*'] <:+: rule.selector) (indent : Nat) (htail : Blank tail) :
    Balanced (rule.block indent tail) := by
  have hselector : Balanced (rule.selector ++ [' ']) := by
    refine .of_not_mem ?_ ?_ (not_pair_append_cons hcomment (by decide) (by decide)) (by simp)
    · simpa using hopening
    · simpa using hclosing
  exact hselector.append (balanced_interior h indent htail).braces

theorem not_mem_interior {c : Char} (hmarks : c ∉ "\t;\n".toList)
    (h : ∀ declaration ∈ rule.declarations, c ∉ declaration.piece) (indent : Nat)
    (htail : c ∉ tail) : c ∉ rule.interior indent tail := by
  rw [interior, List.mem_cons, List.mem_append]
  rintro (rfl | hmem | hmem)
  · exact hmarks (by decide)
  · obtain ⟨declaration, hdeclaration, hmem⟩ := List.mem_flatMap.mp hmem
    exact Declaration.not_mem_render hmarks (h declaration hdeclaration) indent hmem
  · exact htail hmem

theorem at_not_mem_block (hselector : '@' ∉ rule.selector)
    (h : ∀ declaration ∈ rule.declarations, '@' ∉ declaration.piece) (indent : Nat)
    (htail : '@' ∉ tail) : '@' ∉ rule.block indent tail := by
  have hinterior : '@' ∉ rule.interior indent tail := not_mem_interior (by decide) h indent htail
  simp [block, hselector, hinterior]

theorem balanced_renderInner (h : ∀ declaration ∈ rule.declarations, declaration.Canonical)
    (hopening : '{' ∉ rule.selector) (hclosing : '}' ∉ rule.selector)
    (hcomment : ¬['/', '*'] <:+: rule.selector) : Balanced rule.renderInner := by
  have htab : Balanced ['\t'] := .of_blank blank_tab
  have hfeed : Balanced ['\n'] := .of_blank blank_feed
  rw [renderInner_eq]
  exact htab.append ((balanced_block h hopening hclosing hcomment 2 (blank_of_all rfl)).append hfeed)

theorem at_not_mem_renderInner (h : ∀ declaration ∈ rule.declarations, declaration.Canonical)
    (hselector : '@' ∉ rule.selector) : '@' ∉ rule.renderInner := by
  have hpieces : ∀ declaration ∈ rule.declarations, '@' ∉ declaration.piece :=
    fun declaration hmem => (h declaration hmem).at_not_mem_piece
  have hblock := at_not_mem_block hselector hpieces 2 (by decide : '@' ∉ "  ".toList)
  rw [renderInner_eq]
  simpa using hblock

end Rule

theorem scanContents_eq_nil {α : Type} {move : Text → Move α} {text : Text}
    (h : ∀ ahead, '{' ∉ ahead → ∀ found length, move ahead ≠ .take found length)
    (htext : '{' ∉ text) : scanContents move text = [] := by
  have hscan : scan move text = [] := by
    refine scanFrom_eq_nil fun passed ahead hsplit => h ahead fun hmem => htext ?_
    rw [hsplit]
    exact List.mem_append_right passed hmem
  rw [scanContents, hscan]
  rfl

namespace Keyframes

variable {step : Rule}

theorem isStepChar_of_isBlank {c : Char} (h : isBlank c = true) : isStepChar c = true := by
  simp only [isStepChar, h, Bool.or_true]

/-- A run of the characters of a selector is taken as a step, up to the first closing brace. -/
theorem stepMove_run {run interior : Text} (hrun : ∀ c ∈ run, isStepChar c = true) (hne : run ≠ [])
    (hclosing : '}' ∉ interior) (rest : Text) :
    stepMove (run ++ ('{' :: interior ++ ['}']) ++ rest) =
      .take ⟨run.trim, Declaration.matching interior.trim⟩
        (run ++ ('{' :: interior ++ ['}'])).length := by
  refine stepMove_eq_take_iff.mpr ⟨run, interior, rest, ?_, rfl⟩
  exact {
    text_eq := stepText_append run interior rest
    run_ne_nil := hne
    run_chars := hrun
    closing := hclosing
    step_eq := rfl }

theorem stepMove_block (h : step.CanonicalStep) {lead : Text} (hlead : Blank lead) (rest : Text) :
    stepMove (lead ++ '\t' :: step.block 2 "  ".toList ++ rest) =
      .take step (lead ++ '\t' :: step.block 2 "  ".toList).length := by
  have hpieces : ∀ declaration ∈ step.declarations, '}' ∉ declaration.piece :=
    fun declaration hmem =>
      (h.declarations declaration hmem).1.not_mem_piece (by decide) fun _ hplain => hplain.closing
  have hclosing : '}' ∉ step.interior 2 "  ".toList :=
    Rule.not_mem_interior (by decide) hpieces 2 (by decide)
  have hrun : ∀ c ∈ lead ++ ['\t'] ++ step.selector ++ [' '], isStepChar c = true := by
    simp only [List.forall_mem_append, List.forall_mem_singleton]
    exact ⟨⟨⟨fun c hc => isStepChar_of_isBlank (hlead c hc), by decide⟩,
      List.all_eq_true.mp h.selector⟩, by decide⟩
  have htrim : Text.trim (lead ++ ['\t'] ++ step.selector ++ [' ']) = step.selector :=
    h.selector_trimmed.trim_pad (hlead.append blank_tab) blank_space
  have hbody : Declaration.matching (Text.trim (step.interior 2 "  ".toList)) = step.declarations :=
    Declaration.matching_render h.declarations 2 (blank_of_all rfl)
  have hmove := stepMove_run hrun (by simp) hclosing rest
  have hblock : lead ++ '\t' :: step.block 2 "  ".toList =
      lead ++ ['\t'] ++ step.selector ++ [' '] ++
        ('{' :: step.interior 2 "  ".toList ++ ['}']) := by
    simp [Rule.block]
  rw [htrim, hbody, ← hblock] at hmove
  exact hmove

/-- A step has its opening brace right behind a run of the characters of a selector. -/
theorem dropWhile_of_step? {text rest : Text} {found : Rule} (h : step? text = some (found, rest)) :
    ∃ opened, text.dropWhile isStepChar = '{' :: opened := by
  obtain ⟨run, body, hform⟩ := step?_eq_some_iff.mp h
  refine ⟨body ++ '}' :: rest, ?_⟩
  rw [hform.text_eq, Text.dropWhile_append_cons hform.run_chars (by decide)]

theorem scanContents_blanks {blanks : Text} (hblanks : Blank blanks) :
    scanContents stepMove blanks = [] := by
  refine scanContents_eq_nil (fun ahead hahead found length hmove => hahead ?_)
    (Text.not_mem_of_forall hblanks rfl)
  obtain ⟨run, body, rest, hform, -⟩ := stepMove_eq_take_iff.mp hmove
  rw [hform.text_eq]
  exact List.mem_append_right run List.mem_cons_self

theorem stepsOf_render {steps : List Rule} (h : ∀ step ∈ steps, step.CanonicalStep) :
    stepsOf ('\n' :: (steps.flatMap Rule.renderInner ++ ['\n'])) = steps := by
  have hstep : ∀ step ∈ steps, ∃ trail, Blank trail ∧ ∀ lead rest, Blank lead →
      (scanContents stepMove (lead ++ (step.renderInner ++ rest))).map id =
        id step :: (scanContents stepMove (trail ++ rest)).map id := by
    intro step hmem
    refine ⟨['\n'], blank_feed, fun lead rest hlead => ?_⟩
    have htext : lead ++ (step.renderInner ++ rest) =
        lead ++ '\t' :: step.block 2 "  ".toList ++ (['\n'] ++ rest) := by
      simp [Rule.renderInner_eq]
    have hne : lead ++ '\t' :: step.block 2 "  ".toList ≠ [] :=
      List.append_ne_nil_of_right_ne_nil _ (List.cons_ne_nil _ _)
    rw [htext, scanContents_take hne (stepMove_block (h step hmem) hlead (['\n'] ++ rest))]
    rfl
  have hitems := scanContents_items (fun _ => scanContents_blanks) hstep ['\n'] ['\n'] blank_feed
    blank_feed
  rwa [List.map_id, List.map_id] at hitems

end Keyframes

namespace MediaRule

/-- The text of a block that is read as a nested at-rule. -/
def atRuleText (run interior : Text) : Text :=
  '@' :: run ++ ('{' :: interior ++ ['}'])

/-- The text of a nested document is a nested at-rule with blanks around it. -/
def Shell (text : Text) : Prop :=
  ∃ lead run interior trail, text = lead ++ atRuleText run interior ++ trail ∧ Blank lead ∧
    Blank trail ∧ run ≠ [] ∧ (∀ c ∈ run, MediaBlock.isHeaderChar c = true) ∧ Balanced interior

theorem trim_atRuleText {lead trail : Text} (hlead : Blank lead) (htrail : Blank trail)
    (run interior : Text) :
    Text.trim (lead ++ atRuleText run interior ++ trail) = atRuleText run interior := by
  have hat : isSpace '@' = false := by decide
  have hbrace : isSpace '}' = false := by decide
  have htext : atRuleText run interior = ('@' :: run ++ '{' :: interior) ++ '}' :: [] := by
    simp [atRuleText]
  rw [Text.trim_pad hlead htrail, htext, Text.trim_append_cons hbrace]
  exact congrArg (· ++ ['}']) (List.dropWhile_cons_of_neg (by simp [hat]))

end MediaRule

namespace MediaBlock

theorem isSelectorChar_of_isBlank {c : Char} (h : isBlank c = true) : isSelectorChar c = true := by
  have hopening : c ≠ '{' := by
    rintro rfl
    exact absurd h (by decide)
  have hat : c ≠ '@' := by
    rintro rfl
    exact absurd h (by decide)
  simp [isSelectorChar, hopening, hat]

theorem scanContents_blanks_at {blanks : Text} (hblanks : Blank blanks) (rest : Text) :
    scanContents (Block.move innerHeader) (blanks ++ '@' :: rest) =
      scanContents (Block.move innerHeader) ('@' :: rest) := by
  induction blanks with
  | nil => rfl
  | cons c blanks ih =>
      have hall : ∀ d ∈ c :: blanks, isSelectorChar d = true := fun d hd =>
        isSelectorChar_of_isBlank (hblanks d hd)
      have hhead : (c :: blanks ++ '@' :: rest).head? ≠ some '@' := by
        intro heq
        have hblank := hblanks c List.mem_cons_self
        rw [Option.some.inj heq] at hblank
        exact absurd hblank (by decide)
      have hat : isSelectorChar '@' = false := by decide
      have hheader : innerHeader (c :: blanks ++ '@' :: rest) = none := by
        rw [innerHeader_selector hhead, runUpToBrace, Text.takeWhile_append_cons hall hat,
          Text.dropWhile_append_cons hall hat]
        rfl
      have hmove : Block.move innerHeader ([c] ++ (blanks ++ '@' :: rest)) = .pass [c].length :=
        Block.move_eq_pass_iff.mpr ⟨hheader, rfl⟩
      have hpass := scanContents_pass (List.cons_ne_nil c []) hmove
      exact hpass.trans (ih (List.forall_mem_cons.mp hblanks).2)

/-- A selector and an enclosed interior are taken as a rule, whatever follows. -/
theorem move_selector {run interior : Text} (hrun : ∀ c ∈ run, isSelectorChar c = true)
    (hne : run.trim ≠ []) (hinterior : Enclosed interior) (rest : Text) :
    ∃ block, Block.move innerHeader (run ++ ('{' :: interior ++ ['}']) ++ rest) =
        .take block (run ++ ('{' :: interior ++ ['}'])).length ∧
      ruleOf? block = some (.style ⟨run.trim, Declaration.split interior⟩) := by
  have hnil : run ≠ [] := by
    rintro rfl
    exact hne rfl
  have hmove := Block.move_of_form innerHeader_reads ⟨rfl, .inr ⟨hnil, hrun⟩, rfl⟩ hinterior rest
  have htext : run ++ ('{' :: interior ++ ['}']) ++ rest =
      [] ++ run ++ ['{'] ++ (interior ++ '}' :: rest) := by
    simp
  have hblock : run ++ ('{' :: interior ++ ['}']) = [] ++ run ++ ['{'] ++ interior ++ ['}'] := by
    simp
  rw [← htext, ← hblock] at hmove
  refine ⟨_, hmove, ?_⟩
  unfold ruleOf?
  dsimp only
  split
  · next hnone => exact absurd hnone hne
  · next rest hat =>
      have hmem : '@' ∈ run.trim := hat ▸ List.mem_cons_self
      exact absurd (hrun '@' ((Text.trim_isInfix run).subset hmem)) (by decide)
  · rfl

theorem move_style {rule : Rule} (h : rule.Canonical) {lead : Text} (hlead : Blank lead)
    (rest : Text) :
    ∃ block, Block.move innerHeader (lead ++ '\t' :: rule.block 2 "  ".toList ++ rest) =
        .take block (lead ++ '\t' :: rule.block 2 "  ".toList).length ∧
      ruleOf? block = some (.style rule) := by
  have hrun : ∀ c ∈ lead ++ ['\t'] ++ rule.selector ++ [' '], isSelectorChar c = true := by
    simp only [List.forall_mem_append, List.forall_mem_singleton]
    refine ⟨⟨⟨fun c hc => isSelectorChar_of_isBlank (hlead c hc), by decide⟩, fun c hc => ?_⟩,
      by decide⟩
    have hopening : c ≠ '{' := fun heq => h.selector_plain.opening (heq ▸ hc)
    have hat : c ≠ '@' := fun heq => h.selector_plain.at_sign (heq ▸ hc)
    simp [isSelectorChar, hopening, hat]
  have hindent : Blank "  ".toList := blank_of_all rfl
  have htrim : Text.trim (lead ++ ['\t'] ++ rule.selector ++ [' ']) = rule.selector :=
    h.selector_trimmed.trim_pad (hlead.append blank_tab) blank_space
  have hsplit : Declaration.split (rule.interior 2 "  ".toList) = rule.declarations :=
    Declaration.split_render (fun declaration hmem =>
      have hseparable := (h.declarations declaration hmem).separable
      ⟨hseparable.semicolon, hseparable.ofPiece?_trim⟩) 2 blank_feed (blank_of_all rfl)
  have hne : Text.trim (lead ++ ['\t'] ++ rule.selector ++ [' ']) ≠ [] := by
    rw [htrim]
    exact h.selector_ne_nil
  have hmove := move_selector hrun hne (Rule.balanced_interior h.declarations 2 hindent).enclosed
    rest
  have hblock : lead ++ '\t' :: rule.block 2 "  ".toList =
      lead ++ ['\t'] ++ rule.selector ++ [' '] ++
        ('{' :: rule.interior 2 "  ".toList ++ ['}']) := by
    simp [Rule.block]
  rw [htrim, hsplit, ← hblock] at hmove
  exact hmove

theorem move_atRuleText {run interior : Text} (hrun : run ≠ [])
    (hchars : ∀ c ∈ run, isHeaderChar c = true) (hinterior : Enclosed interior) (rest : Text) :
    ∃ block, Block.move innerHeader (MediaRule.atRuleText run interior ++ rest) =
        .take block (MediaRule.atRuleText run interior).length ∧
      ruleOf? block = some (.atRule (MediaRule.atRuleText run interior)) := by
  have hform : InnerForm [] ('@' :: run) ['{'] := ⟨rfl, .inl ⟨run, rfl, hrun, hchars⟩, rfl⟩
  have hmove := Block.move_of_form innerHeader_reads hform hinterior rest
  have htext : MediaRule.atRuleText run interior ++ rest =
      [] ++ ('@' :: run) ++ ['{'] ++ (interior ++ '}' :: rest) := by
    simp [MediaRule.atRuleText]
  have hblock : MediaRule.atRuleText run interior =
      [] ++ ('@' :: run) ++ ['{'] ++ interior ++ ['}'] := by
    simp [MediaRule.atRuleText]
  rw [← htext, ← hblock] at hmove
  have hat : isSpace '@' = false := by decide
  have htrim : Text.trim ('@' :: run) = '@' :: Text.trimEnd run := Text.trim_cons hat
  refine ⟨_, hmove, ?_⟩
  unfold ruleOf?
  simp only [htrim]
  rw [hblock]
  rfl

theorem ruleOf?_style {rule : Rule} (h : rule.Canonical) {lead : Text} (hlead : Blank lead)
    (rest : Text) :
    (scanContents (Block.move innerHeader)
        (lead ++ (MediaRule.render (.style rule) ++ rest))).map ruleOf? =
      some (.style rule) ::
        (scanContents (Block.move innerHeader) (['\n'] ++ rest)).map ruleOf? := by
  obtain ⟨block, hmove, hblock⟩ := move_style h hlead (['\n'] ++ rest)
  have htext : lead ++ (MediaRule.render (.style rule) ++ rest) =
      lead ++ '\t' :: rule.block 2 "  ".toList ++ (['\n'] ++ rest) := by
    simp [MediaRule.render, Rule.renderInner_eq]
  have hne : lead ++ '\t' :: rule.block 2 "  ".toList ≠ [] :=
    List.append_ne_nil_of_right_ne_nil _ (List.cons_ne_nil _ _)
  rw [htext, scanContents_take hne hmove, List.map_cons, hblock]

theorem ruleOf?_atRule {run interior : Text} (hrun : run ≠ [])
    (hchars : ∀ c ∈ run, isHeaderChar c = true) (hinterior : Enclosed interior) {lead : Text}
    (hlead : Blank lead) (rest : Text) :
    (scanContents (Block.move innerHeader)
        (lead ++ (MediaRule.atRuleText run interior ++ rest))).map ruleOf? =
      some (.atRule (MediaRule.atRuleText run interior)) ::
        (scanContents (Block.move innerHeader) rest).map ruleOf? := by
  obtain ⟨block, hmove, hblock⟩ := move_atRuleText hrun hchars hinterior rest
  have hne : MediaRule.atRuleText run interior ≠ [] := List.cons_ne_nil _ _
  have hskip := scanContents_blanks_at hlead (run ++ ('{' :: interior ++ ['}']) ++ rest)
  calc
    (scanContents (Block.move innerHeader)
          (lead ++ (MediaRule.atRuleText run interior ++ rest))).map ruleOf? =
        (scanContents (Block.move innerHeader)
          (MediaRule.atRuleText run interior ++ rest)).map ruleOf? :=
      congrArg (List.map ruleOf?) hskip
    _ = some (.atRule (MediaRule.atRuleText run interior)) ::
        (scanContents (Block.move innerHeader) rest).map ruleOf? := by
      rw [scanContents_take hne hmove, List.map_cons, hblock]

theorem scanContents_blanks {blanks : Text} (h : Blank blanks) :
    scanContents (Block.move innerHeader) blanks = [] := by
  apply scanContents_eq_nil
  · intro ahead hahead found length hmove
    have hheader := (Block.move_eq_take_iff.mp hmove).1
    have htail := (innerHeader_reads.form_of_eq_some hheader).tail_eq
    apply hahead
    rw [innerHeader_reads.text_eq hheader, Reading.text, htail]
    simp
  · exact Text.not_mem_of_forall h rfl

/-- The rules of a media block are read as they were written. -/
theorem rulesOf_render {rules : List (MediaRule Text)}
    (h : ∀ rule ∈ rules, rule.Canonical MediaRule.Shell) :
    rulesOf ('\n' :: (rules.flatMap MediaRule.render ++ ['\n'])) =
      rules.map (MediaRule.map Text.trim) := by
  have hrule : ∀ rule ∈ rules, ∃ trail, Blank trail ∧ ∀ lead rest, Blank lead →
      (scanContents (Block.move innerHeader) (lead ++ (rule.render ++ rest))).map ruleOf? =
        some (rule.map Text.trim) ::
          (scanContents (Block.move innerHeader) (trail ++ rest)).map ruleOf? := by
    intro rule hmem
    have hcanonical := h rule hmem
    cases rule with
    | style rule =>
        exact ⟨['\n'], blank_feed, fun lead rest hlead => ruleOf?_style hcanonical hlead rest⟩
    | atRule text =>
        obtain ⟨before, run, interior, behind, rfl, hbefore, hbehind, hrun, hchars, hinterior⟩ :=
          hcanonical
        refine ⟨behind ++ ['\n'], hbehind.append blank_feed, ?_⟩
        intro lead rest hlead
        have htext : lead ++ (MediaRule.render (.atRule (before ++ MediaRule.atRuleText run interior ++
            behind)) ++ rest) =
            (lead ++ before) ++ (MediaRule.atRuleText run interior ++ (behind ++ ['\n'] ++ rest)) := by
          simp [MediaRule.render]
        rw [htext, ruleOf?_atRule hrun hchars hinterior.enclosed (hlead.append hbefore), MediaRule.map,
          MediaRule.trim_atRuleText hbefore hbehind]
  have hitems := scanContents_items (fun _ => scanContents_blanks) hrule ['\n'] ['\n'] blank_feed
    blank_feed
  have hrules := congrArg (List.filterMap id) hitems
  rw [List.filterMap_map, List.filterMap_map] at hrules
  calc
    rulesOf ('\n' :: (rules.flatMap MediaRule.render ++ ['\n'])) =
        rules.filterMap (id ∘ fun rule => some (rule.map Text.trim)) := hrules
    _ = rules.map (MediaRule.map Text.trim) := by
      rw [← List.filterMap_eq_map]
      rfl

end MediaBlock

end Stylesheet
