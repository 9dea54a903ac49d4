import Stylesheet.Scan

/-!
# What scans find

A scan finds something where its move takes it, and nowhere else. Where the moves made in a text do
not depend on what follows the text, more text only adds finds behind the ones there are.
-/

namespace Stylesheet

variable {α : Type} {move : Text → Move α}

theorem mem_scanFrom {skip : Nat} {before text : Text} {site : Site α}
    (h : site ∈ scanFrom move skip before text) :
    ∃ passed ahead length, text = passed ++ ahead ∧ site.before = passed.reverse ++ before ∧
      move ahead = .take site.content length := by
  induction text generalizing skip before with
  | nil => simp [scanFrom] at h
  | cons c text ih =>
      have later : ∀ {skip : Nat}, site ∈ scanFrom move skip (c :: before) text →
          ∃ passed ahead length, c :: text = passed ++ ahead ∧
            site.before = passed.reverse ++ before ∧ move ahead = .take site.content length := by
        intro skip hsite
        obtain ⟨passed, ahead, length, htext, hbefore, hmove⟩ := ih hsite
        exact ⟨c :: passed, ahead, length, by rw [htext]; rfl, by simp [hbefore], hmove⟩
      cases skip with
      | succ skip => exact later h
      | zero =>
          rw [scanFrom] at h
          split at h
          · simp at h
          · exact later h
          · next found length hmove =>
              rcases List.mem_cons.mp h with rfl | hsite
              · exact ⟨[], c :: text, length, rfl, rfl, hmove⟩
              · exact later hsite

/-- The finds from one of them on are what the scan finds from its place on. -/
theorem scanFrom_eq_append_cons {skip : Nat} {before text : Text} {earlier later : List (Site α)}
    {site : Site α} (h : scanFrom move skip before text = earlier ++ site :: later) :
    ∃ passed ahead, text = passed ++ ahead ∧ site.before = passed.reverse ++ before ∧
      scanFrom move 0 site.before ahead = site :: later := by
  induction text generalizing skip before earlier with
  | nil => exact absurd h (by simp [scanFrom])
  | cons c text ih =>
      have behind : ∀ {skip : Nat} {earlier : List (Site α)},
          scanFrom move skip (c :: before) text = earlier ++ site :: later →
            ∃ passed ahead, c :: text = passed ++ ahead ∧
              site.before = passed.reverse ++ before ∧
              scanFrom move 0 site.before ahead = site :: later := by
        intro skip earlier hlater
        obtain ⟨passed, ahead, rfl, hbefore, hscan⟩ := ih hlater
        exact ⟨c :: passed, ahead, rfl, by simp [hbefore], hscan⟩
      cases skip with
      | succ skip => exact behind h
      | zero =>
          cases hmove : move (c :: text) with
          | stop => exact absurd h (by simp [scanFrom, hmove])
          | pass length =>
              rw [scanFrom, hmove] at h
              exact behind h
          | take found length =>
              cases earlier with
              | nil =>
                  have hhead : site.before = before := by
                    rw [scanFrom, hmove] at h
                    exact congrArg Site.before (List.cons.inj h).1.symm
                  exact ⟨[], c :: text, rfl, hhead, by rw [hhead, h]; rfl⟩
              | cons first earlier =>
                  rw [scanFrom, hmove] at h
                  exact behind (List.cons.inj h).2

theorem scanFrom_eq_nil {skip : Nat} {before text : Text}
    (h : ∀ passed ahead, text = passed ++ ahead → ∀ found length, move ahead ≠ .take found length) :
    scanFrom move skip before text = [] := by
  apply List.eq_nil_iff_forall_not_mem.mpr
  intro site hsite
  obtain ⟨passed, ahead, length, htext, -, hmove⟩ := mem_scanFrom hsite
  exact h passed ahead htext site.content length hmove

theorem mem_scan {text : Text} {site : Site α} (h : site ∈ scan move text) :
    ∃ passed ahead length, text = passed ++ ahead ∧ site.before = passed.reverse ∧
      move ahead = .take site.content length := by
  simpa using mem_scanFrom h

theorem mem_scanContents {text : Text} {found : α} (h : found ∈ scanContents move text) :
    ∃ passed ahead length, text = passed ++ ahead ∧ move ahead = .take found length := by
  obtain ⟨site, hsite, rfl⟩ := List.mem_map.mp h
  obtain ⟨passed, ahead, length, htext, -, hmove⟩ := mem_scan hsite
  exact ⟨passed, ahead, length, htext, hmove⟩

theorem before_isSuffix_of_mem_scanFrom {skip : Nat} {before text : Text} {site : Site α}
    (h : site ∈ scanFrom move skip before text) : before <:+ site.before := by
  obtain ⟨passed, ahead, length, -, hbefore, -⟩ := mem_scanFrom h
  exact ⟨passed.reverse, hbefore.symm⟩

/-- What is found later has more text before it. -/
theorem pairwise_scanFrom (move : Text → Move α) (skip : Nat) (before text : Text) :
    (scanFrom move skip before text).Pairwise
      fun site later => ∃ c, c :: site.before <:+ later.before := by
  induction text generalizing skip before with
  | nil => exact .nil
  | cons c text ih =>
      cases skip with
      | succ skip => exact ih skip (c :: before)
      | zero =>
          rw [scanFrom]
          split
          · exact .nil
          · exact ih _ (c :: before)
          · refine List.pairwise_cons.mpr ⟨fun later hlater => ?_, ih _ (c :: before)⟩
            exact ⟨c, before_isSuffix_of_mem_scanFrom hlater⟩

theorem length_before_lt_of_mem_scanFrom {skip : Nat} {before text : Text} {site : Site α}
    (h : site ∈ scanFrom move skip before text) :
    site.before.length < before.length + text.length := by
  induction text generalizing skip before with
  | nil => exact absurd h List.not_mem_nil
  | cons c text ih =>
      have hlength : before.length + (c :: text).length = (c :: before).length + text.length := by
        rw [List.length_cons, List.length_cons]
        omega
      rw [hlength]
      cases skip with
      | succ skip => exact ih h
      | zero =>
          rw [scanFrom] at h
          split at h
          · exact absurd h List.not_mem_nil
          · exact ih h
          · rcases List.mem_cons.mp h with rfl | hsite
            · exact Nat.lt_add_right _ (Nat.lt_succ_self _)
            · exact ih hsite

/-- A text has a character for each line on which something begins. -/
theorem line_le_of_mem_scan {text : Text} {site : Site α} (h : site ∈ scan move text) :
    site.line ≤ text.length := by
  have hbefore := length_before_lt_of_mem_scanFrom h
  have hcount : site.before.count '\n' ≤ site.before.length := List.count_le_length
  rw [List.length_nil, Nat.zero_add] at hbefore
  exact Nat.lt_of_le_of_lt hcount hbefore

variable {β : Type} {view : α → β}

/-- What a move does in a text it also does when more text follows, as far as `view` tells. Only a
pass may turn into something else, and then there was nothing to be found. -/
structure Steady (view : α → β) (move : Text → Move α) : Prop where
  take : ∀ {text : Text} {found : α} {length : Nat}, move text = .take found length →
    length ≤ text.length ∧
      ∀ more, ∃ same, move (text ++ more) = .take same length ∧ view same = view found
  pass : ∀ {text : Text} {length : Nat}, move text = .pass length →
    (length ≤ text.length ∧ ∀ more, move (text ++ more) = .pass length) ∨
      ∀ before, scanFrom move 0 before text = []

/-- The number of characters that a move covers. -/
def Move.length : Move α → Nat
  | .stop => 0
  | .pass length => length
  | .take _ length => length

theorem Steady.of_append
    (h : ∀ text, move text ≠ .stop →
      (move text).length ≤ text.length ∧ ∀ more, move (text ++ more) = move text) :
    Steady id move where
  take := by
    intro text found length hmove
    obtain ⟨hlength, hmore⟩ := h text (by simp [hmove])
    rw [hmove] at hlength hmore
    exact ⟨hlength, fun more => ⟨found, hmore more, rfl⟩⟩
  pass := by
    intro text length hmove
    obtain ⟨hlength, hmore⟩ := h text (by simp [hmove])
    rw [hmove] at hlength hmore
    exact .inl ⟨hlength, hmore⟩

theorem Steady.scanFrom_isPrefix (hmove : Steady view move) {skip : Nat} {before text : Text}
    (hskip : skip ≤ text.length) (more : Text) :
    (scanFrom move skip before text).map (Site.map view) <+:
      (scanFrom move skip before (text ++ more)).map (Site.map view) := by
  induction text generalizing skip before with
  | nil => simp [scanFrom]
  | cons c text ih =>
      -- The characters of a move that is made in the text lie in the text.
      have inside : ∀ {length : Nat}, length ≤ (c :: text).length → length - 1 ≤ text.length := by
        intro length hlength
        rw [List.length_cons] at hlength
        omega
      cases skip with
      | succ skip => exact ih (Nat.le_of_succ_le_succ hskip)
      | zero =>
          cases hstep : move (c :: text) with
          | stop => simp [scanFrom, hstep]
          | take found length =>
              obtain ⟨hlength, hmore⟩ := hmove.take hstep
              obtain ⟨same, hsame, hview⟩ := hmore more
              rw [List.cons_append] at hsame ⊢
              simp only [scanFrom, hstep, hsame, List.map_cons, Site.map, hview]
              exact (List.prefix_cons_inj _).mpr (ih (inside hlength))
          | pass length =>
              rcases hmove.pass hstep with ⟨hlength, hmore⟩ | hnothing
              · have hsame := hmore more
                rw [List.cons_append] at hsame ⊢
                simp only [scanFrom, hstep, hsame]
                exact ih (inside hlength)
              · rw [hnothing]
                exact List.nil_prefix

theorem Steady.scan_isPrefix (hmove : Steady view move) (text more : Text) :
    (scan move text).map (Site.map view) <+: (scan move (text ++ more)).map (Site.map view) :=
  hmove.scanFrom_isPrefix (Nat.zero_le _) more

end Stylesheet
