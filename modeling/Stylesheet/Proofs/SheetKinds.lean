import Stylesheet.Parse

/-!
# The kinds of a sheet

Two kinds put together have the records of both, and are absent only when both are. A sheet is read
kind by kind, and merging the readings keeps every kind as it was read.
-/

namespace Stylesheet

theorem getD_present {α : Type} (records : List α) : (present records).getD [] = records := by
  cases records <;> rfl

theorem present_ne_some_nil {α : Type} (records : List α) : present records ≠ some [] := by
  cases records <;> simp [present]

theorem present_getD {α : Type} {records : Option (List α)} (h : records ≠ some []) :
    present (records.getD []) = records := by
  cases records with
  | none => rfl
  | some records =>
      cases records with
      | nil => exact absurd rfl h
      | cons record records => rfl

theorem present_map {α β : Type} (f : α → β) (records : List α) :
    present (records.map f) = (present records).map (List.map f) := by
  cases records <;> rfl

theorem map_ne_some_nil {α β : Type} (f : α → β) {records : Option (List α)}
    (h : records ≠ some []) : records.map (List.map f) ≠ some [] := by
  cases records with
  | none => exact fun heq => nomatch heq
  | some records =>
      cases records with
      | nil => exact absurd rfl h
      | cons record records => exact fun heq => List.cons_ne_nil _ _ (Option.some.inj heq)

namespace Sheet

section Kinds

variable {α : Type} (records others more : Option (List α))

theorem append_none : append records none = records := by
  cases records <;> rfl

theorem none_append : append none records = records :=
  rfl

theorem append_assoc :
    append (append records others) more = append records (append others more) := by
  cases records with
  | none => rfl
  | some records =>
      cases others with
      | none => rfl
      | some others =>
          cases more with
          | none => rfl
          | some more => exact congrArg some (List.append_assoc records others more)

theorem getD_append :
    (append records others).getD [] = records.getD [] ++ others.getD [] := by
  cases records with
  | none => rfl
  | some records =>
      cases others with
      | none => exact (List.append_nil records).symm
      | some others => rfl

theorem append_eq_none_iff : append records others = none ↔ records = none ∧ others = none := by
  cases records <;> cases others <;> simp [append]

theorem lacks_eq_true_iff : lacks records = true ↔ count records = 0 := by
  cases records with
  | none => simp [lacks, count]
  | some records => exact List.isEmpty_iff_length_eq_zero

end Kinds

/-- Every kind is what its own reading gives, whatever the readings of the other kinds give. -/
theorem readKinds_all (text : Text) : readKinds Kind.all text =
    { charset := present (Directive.records Directive.charset text)
      imports := present (Directive.records Directive.imports text)
      tailwind := present (Directive.records Directive.tailwind text)
      config := (Directive.records Directive.config text).head?
      keyframes := present (Keyframes.records text)
      media := present (MediaBlock.records text)
      styles := present (StyleRule.records text) } := by
  simp [readKinds, Kind.all, Kind.read, merge, append_none, none_append]

end Sheet

end Stylesheet
