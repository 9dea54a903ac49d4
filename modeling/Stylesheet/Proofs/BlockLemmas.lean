import Stylesheet.Block
import Stylesheet.Proofs.PatternLemmas

/-!
# Balanced braces

The brace that closes a block is found from the text before it alone.
-/

namespace Stylesheet

variable {c : Char} {text front rest interior : Text} {inComment : Bool} {depth : Int}

theorem balance_inside (h : c = '*' → text.head? ≠ some '/') :
    balance true depth (c :: text) =
      (balance true depth text).map fun (front, rest) => (c :: front, rest) := by
  rw [balance]
  rintro more rfl rfl
  simp at h

theorem balance_plain (hopening : c ≠ '{') (hclosing : c ≠ '}')
    (h : c = '/' → text.head? ≠ some '*') :
    balance false depth (c :: text) =
      (balance false depth text).map fun (front, rest) => (c :: front, rest) := by
  rw [balance]
  · rintro more rfl rfl
    simp at h
  · exact fun h => hopening h
  · exact fun h => hclosing h

theorem head?_append_brace_ne (hc : c ≠ '}') (h : (front ++ '}' :: rest).head? ≠ some c)
    (more : Text) : (front ++ '}' :: more).head? ≠ some c := by
  cases front with
  | nil => simpa using Ne.symm hc
  | cons d front => exact h

/-- The text up to the closing brace decides where it is. -/
theorem balance_local (h : balance inComment depth text = some (front, rest)) :
    text = front ++ '}' :: rest ∧
      ∀ more, balance inComment depth (front ++ '}' :: more) = some (front, more) := by
  fun_induction balance inComment depth text generalizing front with
  | case1 => simp at h
  | case2 depth text ih =>
      obtain ⟨⟨inner, _⟩, hinner, hpair⟩ := Option.map_eq_some_iff.mp h
      obtain ⟨rfl, rfl⟩ := Prod.mk.inj hpair
      obtain ⟨rfl, hlocal⟩ := ih hinner
      exact ⟨rfl, fun more => by simp [balance, hlocal more]⟩
  | case3 depth c text hcloser ih =>
      obtain ⟨⟨inner, _⟩, hinner, hpair⟩ := Option.map_eq_some_iff.mp h
      obtain ⟨rfl, rfl⟩ := Prod.mk.inj hpair
      obtain ⟨rfl, hlocal⟩ := ih hinner
      refine ⟨rfl, fun more => ?_⟩
      have hinside : c = '*' → (inner ++ '}' :: more).head? ≠ some '/' := fun hc =>
        head?_append_brace_ne (by decide) (fun hhead => by
          obtain ⟨tail, htail⟩ := List.head?_eq_some_iff.mp hhead
          exact hcloser tail hc htail) more
      rw [List.cons_append, balance_inside hinside, hlocal more]
      rfl
  | case4 depth text ih =>
      obtain ⟨⟨inner, _⟩, hinner, hpair⟩ := Option.map_eq_some_iff.mp h
      obtain ⟨rfl, rfl⟩ := Prod.mk.inj hpair
      obtain ⟨rfl, hlocal⟩ := ih hinner
      exact ⟨rfl, fun more => by simp [balance, hlocal more]⟩
  | case5 depth text ih =>
      obtain ⟨⟨inner, _⟩, hinner, hpair⟩ := Option.map_eq_some_iff.mp h
      obtain ⟨rfl, rfl⟩ := Prod.mk.inj hpair
      obtain ⟨rfl, hlocal⟩ := ih hinner
      exact ⟨rfl, fun more => by simp [balance, hlocal more]⟩
  | case6 text =>
      obtain ⟨rfl, rfl⟩ := Prod.mk.inj (Option.some.inj h)
      exact ⟨rfl, fun more => by simp [balance]⟩
  | case7 depth text hdepth ih =>
      obtain ⟨⟨inner, _⟩, hinner, hpair⟩ := Option.map_eq_some_iff.mp h
      obtain ⟨rfl, rfl⟩ := Prod.mk.inj hpair
      obtain ⟨rfl, hlocal⟩ := ih hinner
      exact ⟨rfl, fun more => by simp [balance, hdepth, hlocal more]⟩
  | case8 depth c text hcomment hopening hclosing ih =>
      obtain ⟨⟨inner, _⟩, hinner, hpair⟩ := Option.map_eq_some_iff.mp h
      obtain ⟨rfl, rfl⟩ := Prod.mk.inj hpair
      obtain ⟨rfl, hlocal⟩ := ih hinner
      refine ⟨rfl, fun more => ?_⟩
      have hplain : c = '/' → (inner ++ '}' :: more).head? ≠ some '*' := fun hc =>
        head?_append_brace_ne (by decide) (fun hhead => by
          obtain ⟨tail, htail⟩ := List.head?_eq_some_iff.mp hhead
          exact hcomment tail hc htail) more
      rw [List.cons_append, balance_plain hopening hclosing hplain, hlocal more]
      rfl

theorem interior?_eq_append (h : interior? text = some (interior, rest)) :
    text = interior ++ '}' :: rest :=
  (balance_local h).1

theorem interior?_append (h : interior? text = some (interior, rest)) (more : Text) :
    interior? (text ++ more) = some (interior, rest ++ more) := by
  obtain ⟨rfl, hlocal⟩ := balance_local h
  rw [List.append_assoc, List.cons_append]
  exact hlocal (rest ++ more)

/-- A text between two braces of which the second closes the first. -/
def Enclosed (interior : Text) : Prop :=
  interior? (interior ++ ['}']) = some (interior, [])

instance : DecidablePred Enclosed := fun interior =>
  inferInstanceAs (Decidable (interior? (interior ++ ['}']) = some (interior, [])))

theorem Enclosed.interior?_eq (h : Enclosed interior) (rest : Text) :
    interior? (interior ++ '}' :: rest) = some (interior, rest) :=
  (balance_local h).2 rest

theorem enclosed_of_interior? (h : interior? text = some (interior, rest)) : Enclosed interior :=
  (balance_local h).2 []

namespace Block

variable {header : Pattern} {form : Text → Text → Text → Prop} {β : Type} {view : Block → β}

theorem move_eq_take_iff {block : Block} {length : Nat} :
    move header text = .take block length ↔
      header text = some block.header ∧
        (∃ rest, interior? block.header.rest = some (block.interior, rest)) ∧
        length = block.text.length := by
  unfold move
  constructor
  · intro h
    split at h
    · contradiction
    · next reading hreading =>
        split at h
        · contradiction
        · next interior rest hinterior =>
            obtain ⟨rfl, rfl⟩ := Move.take.inj h
            exact ⟨hreading, ⟨rest, hinterior⟩, rfl⟩
  · rintro ⟨hheader, ⟨rest, hinterior⟩, rfl⟩
    simp only [hheader, hinterior]

theorem text_eq_append (hreads : header.Reads form) {block : Block} {length : Nat}
    (h : move header text = .take block length) :
    ∃ rest, text = block.text ++ rest ∧ length = block.text.length := by
  obtain ⟨hheader, ⟨rest, hinterior⟩, hlength⟩ := move_eq_take_iff.mp h
  refine ⟨rest, ?_, hlength⟩
  rw [hreads.text_eq hheader, interior?_eq_append hinterior]
  simp [Block.text]

theorem move_eq_pass_iff {length : Nat} :
    move header text = .pass length ↔ header text = none ∧ length = 1 := by
  unfold move
  cases hheader : header text with
  | none => simp [eq_comm]
  | some reading => cases hinterior : interior? reading.rest <;> simp [hinterior]

theorem steady_move (hreads : header.Reads form) (hform : Pattern.Unnested form)
    (hview : ∀ reading rest interior,
      view ⟨{ reading with rest := rest }, interior⟩ = view ⟨reading, interior⟩) :
    Steady view (move header) where
  take := by
    intro text block length hmove
    obtain ⟨hheader, ⟨rest, hinterior⟩, rfl⟩ := move_eq_take_iff.mp hmove
    obtain ⟨rest, htext, -⟩ := text_eq_append hreads hmove
    refine ⟨by rw [htext, List.length_append]; omega, fun more => ?_⟩
    refine ⟨⟨{ block.header with rest := block.header.rest ++ more }, block.interior⟩, ?_,
      hview _ _ _⟩
    exact move_eq_take_iff.mpr
      ⟨hreads.append hheader more, ⟨_, interior?_append hinterior more⟩, rfl⟩
  pass := by
    intro text length hmove
    obtain ⟨hnone, rfl⟩ := move_eq_pass_iff.mp hmove
    cases text with
    | nil => exact .inr fun _ => rfl
    | cons c text =>
        rcases hreads.none_append_or hform hnone with hmore | hnothing
        · exact .inl ⟨by simp, fun more => move_eq_pass_iff.mpr ⟨hmore more, rfl⟩⟩
        · refine .inr fun before => scanFrom_eq_nil fun passed ahead htext block length hahead => ?_
          have hheader := (move_eq_take_iff.mp hahead).1
          rw [hnothing passed ahead htext] at hheader
          contradiction

end Block

end Stylesheet
