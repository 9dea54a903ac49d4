import Stylesheet.Proofs.ElementReading

/-!
# The ends of directives

A directive has two readers: its pattern, and the scan for style rules, which passes over at-rules.
The pattern reads whatever stands between the quotes, while the at-rule ends at the first semicolon
and at a block. So both find the same end exactly if the value has no character that ends an at-rule.
-/

namespace Stylesheet

/-- The kinds whose elements are a keyword, a value and a semicolon. -/
def Kind.directives : List Kind :=
  [.charset, .imports, .tailwind, .config]

theorem unended_append_iff {front back : Text} :
    Unended (front ++ back) ↔ Unended front ∧ Unended back :=
  List.forall_mem_append

theorem unended_of_blank {text : Text} (h : Blank text) : Unended text :=
  unended_iff.mpr ⟨Text.not_mem_of_forall h rfl, Text.not_mem_of_forall h rfl⟩

theorem unended_of_isQuote {c : Char} (h : Directive.isQuote c = true) : Unended [c] := by
  simp only [Directive.isQuote, Bool.or_eq_true, decide_eq_true_eq] at h
  rcases h with rfl | rfl <;> exact unended_of_all rfl

/-- Around the value of a directive nothing ends an at-rule but its last character. -/
structure Directive.Delimited (lead value tail : Text) : Prop where
  at_sign : ∃ named, lead = '@' :: named
  lead : Unended lead
  tail : ∃ closed, tail = closed ++ [';'] ∧ Unended closed

namespace Directive.Delimited

variable {name lead value tail rest : Text} {spaced : Bool}

theorem of_quotedForm (hname : Unended name)
    (h : QuotedForm ('@' :: name) spaced lead value tail) : Delimited lead value tail := by
  obtain ⟨⟨gap, opening, rfl, hgap, -, hopening⟩, -, -, closing, space, rfl, hclosing, hspace⟩ := h
  have hkeyword : Unended ('@' :: name) := List.forall_mem_cons.mpr ⟨by decide, hname⟩
  refine ⟨⟨name ++ gap ++ [opening], rfl⟩, ?_, closing :: space, rfl, ?_⟩
  · rw [unended_append_iff, unended_append_iff]
    exact ⟨⟨hkeyword, unended_of_blank hgap⟩, unended_of_isQuote hopening⟩
  · rw [← List.singleton_append, unended_append_iff]
    exact ⟨unended_of_isQuote hclosing, unended_of_blank hspace⟩

theorem of_wordForm {accepts : Char → Bool} (hname : Unended name)
    (h : Pattern.WordForm ('@' :: name) spaced accepts ';' lead value tail) :
    Delimited lead value tail := by
  obtain ⟨⟨gap, rfl, hgap, -⟩, -, -, space, rfl, hspace⟩ := h
  have hkeyword : Unended ('@' :: name) := List.forall_mem_cons.mpr ⟨by decide, hname⟩
  refine ⟨⟨name ++ gap, rfl⟩, ?_, space, rfl, unended_of_blank hspace⟩
  rw [unended_append_iff]
  exact ⟨hkeyword, unended_of_blank hgap⟩

/-- The at-rule ends where the directive does unless it ends in the value. -/
theorem atRule?_eq_some_iff (h : Delimited lead value tail) (rest : Text) :
    atRule? (lead ++ value ++ tail ++ rest) = some (lead ++ value ++ tail, rest) ↔
      Unended value := by
  obtain ⟨-, hlead, closed, rfl, hclosed⟩ := h
  rw [Stylesheet.atRule?_eq_some_iff]
  constructor
  · rintro ⟨front, hfront, ⟨-, hpiece⟩ | ⟨opened, interior, -, -, hpiece⟩⟩
    · have hsame : lead ++ value ++ closed ++ [';'] = front ++ [';'] := by
        rw [← hpiece]
        exact List.append_assoc _ _ _
      have hall : Unended (lead ++ value ++ closed) := List.append_cancel_right hsame ▸ hfront
      exact (unended_append_iff.mp (unended_append_iff.mp hall).1).2
    · -- A block ends in a brace, a directive in its semicolon.
      have hlast := congrArg List.getLast? hpiece
      rw [← List.append_assoc, List.getLast?_concat, List.getLast?_concat] at hlast
      exact absurd hlast (by decide)
  · intro hvalue
    refine ⟨lead ++ value ++ closed, ?_, .inl ⟨?_, ?_⟩⟩
    · exact unended_append_iff.mpr ⟨unended_append_iff.mpr ⟨hlead, hvalue⟩, hclosed⟩
    · simp only [List.append_assoc, List.singleton_append]
    · simp only [List.append_assoc]

theorem passes (h : Delimited lead value tail) (hvalue : Unended value) :
    Passes StyleRule.move (lead ++ value ++ tail) := by
  have hend : ∀ rest, atRule? (lead ++ value ++ tail ++ rest) = some (lead ++ value ++ tail, rest) :=
    fun rest => (h.atRule?_eq_some_iff rest).mpr hvalue
  obtain ⟨named, rfl⟩ := h.at_sign
  exact StyleRule.passes_atRule hend

end Directive.Delimited

variable {kind : Kind} {pattern : Pattern} {text : Text} {reading : Reading}

theorem Kind.delimited_of_mem_directives (hkind : kind ∈ directives)
    (hpattern : kind.pattern? = some pattern) (hreading : pattern text = some reading) :
    Directive.Delimited reading.lead reading.value reading.tail ∧
      text = reading.text ++ reading.rest := by
  have hquoted : ∀ {name spaced}, Unended name →
      Directive.quoted ('@' :: name) spaced text = some reading →
      Directive.Delimited reading.lead reading.value reading.tail ∧
        text = reading.text ++ reading.rest := by
    intro name spaced hname hread
    have hreads := Directive.quoted_reads ('@' :: name) spaced
    exact ⟨.of_quotedForm hname (hreads.form_of_eq_some hread), hreads.text_eq hread⟩
  cases kind with
  | charset | imports | config =>
      cases hpattern
      exact hquoted (unended_of_all rfl) hreading
  | tailwind =>
      cases hpattern
      have hform := Directive.tailwind_reads.form_of_eq_some hreading
      exact ⟨.of_wordForm (unended_of_all rfl) hform, Directive.tailwind_reads.text_eq hreading⟩
  | keyframes | media | styles => exact absurd hkind (by decide)

/-- **The two readers of a directive.** Wherever a directive begins, the at-rule found there ends
with the directive if and only if the value holds neither a semicolon nor an opening brace; and then
the scan for style rules goes on behind the directive without a find in it. -/
theorem Kind.atRule?_eq_reading_iff (hkind : kind ∈ directives)
    (hpattern : kind.pattern? = some pattern) (hreading : pattern text = some reading) :
    (atRule? text = some (reading.text, reading.rest) ↔
        ';' ∉ reading.value ∧ '{' ∉ reading.value) ∧
      (';' ∉ reading.value → '{' ∉ reading.value → ∀ before,
        scanFrom StyleRule.move 0 before text =
          scanFrom StyleRule.move 0 (reading.text.reverse ++ before) reading.rest) := by
  obtain ⟨hdelimited, htext⟩ := delimited_of_mem_directives hkind hpattern hreading
  refine ⟨?_, fun hsemicolon hopening before => ?_⟩
  · rw [← unended_iff, htext]
    exact hdelimited.atRule?_eq_some_iff reading.rest
  · rw [htext]
    exact hdelimited.passes (unended_iff.mpr ⟨hsemicolon, hopening⟩) before reading.rest

/-- An import of a long address, with a rule behind it. -/
def imported : Text :=
  "@import \"//a.b/c?d=e,f\" ; g\x7bh:i\x7d".toList

theorem Kind.atRule?_imported :
    ∃ reading, .imports ∈ directives ∧ Kind.pattern? .imports = some Directive.imports ∧
      Directive.imports imported = some reading ∧
      ';' ∉ reading.value ∧ '{' ∉ reading.value ∧
      atRule? imported = some (reading.text, reading.rest) := by
  have hreading : Directive.imports imported = some
      ⟨"@import \"".toList, "//a.b/c?d=e,f".toList, "\" ;".toList, " g\x7bh:i\x7d".toList⟩ := by
    decide
  have hvalue : ';' ∉ "//a.b/c?d=e,f".toList ∧ '{' ∉ "//a.b/c?d=e,f".toList := by
    decide
  have hkind : Kind.imports ∈ directives := by decide
  have hend := (atRule?_eq_reading_iff hkind rfl hreading).1.mpr hvalue
  exact ⟨_, hkind, rfl, hreading, hvalue.1, hvalue.2, hend⟩

/-- An import with a semicolon between its quotes, with a rule behind it. -/
def parted : Text :=
  "@import 'a;b';\nc\x7bd:e\x7d".toList

/-- The rest of the value becomes a part of the selector that follows. -/
theorem Kind.atRule?_parted_ne :
    ∃ reading, Directive.imports parted = some reading ∧
      atRule? parted ≠ some (reading.text, reading.rest) ∧
      (StyleRule.records parted).map (fun record => record.content.selector) =
        ["b';\nc".toList] := by
  refine ⟨⟨"@import '".toList, "a;b".toList, "';".toList, "\nc\x7bd:e\x7d".toList⟩, ?_, ?_, ?_⟩
  · decide
  · decide
  · decide

end Stylesheet
