import Mathlib.Data.List.Infix
import Stylesheet.Parse
import Stylesheet.Proofs.BlockLemmas
import Stylesheet.Proofs.CommentReading
import Stylesheet.Proofs.HeaderForms

/-!
# Keywords

The name of an at-rule stands right after an at sign. A scan that looks for one name passes over a
text whose at signs begin only other names.
-/

namespace Stylesheet

/-- The name of the kind's at-rules; style rules have none. -/
def Kind.name? : Kind → Option Text
  | .charset => some "charset".toList
  | .imports => some "import".toList
  | .tailwind => some "tailwind".toList
  | .config => some "config".toList
  | .keyframes => some "keyframes".toList
  | .media => some "media".toList
  | .styles => none

/-- The name follows no at sign of a text, whatever follows the text. -/
def Lacks (name text : Text) : Prop :=
  ∀ passed ahead rest, text = passed ++ '@' :: ahead → ¬name <+: ahead ++ rest

section Lacks

variable {name front back text : Text}

theorem Lacks.of_not_mem (h : '@' ∉ text) : Lacks name text := by
  rintro passed ahead rest rfl
  exact absurd (List.mem_append_right passed List.mem_cons_self) h

theorem Lacks.append (hfront : Lacks name front) (hback : Lacks name back) :
    Lacks name (front ++ back) := by
  intro passed ahead rest hsplit
  rcases List.append_eq_append_iff.mp hsplit with ⟨middle, -, hmiddle⟩ | ⟨middle, rfl, hmiddle⟩
  · exact hback middle ahead rest hmiddle
  · cases middle with
    | nil => exact hback [] ahead rest hmiddle.symm
    | cons c middle =>
        obtain ⟨rfl, hahead⟩ := List.cons.inj hmiddle
        have hsplit : ahead ++ rest = middle ++ (back ++ rest) := by
          rw [← List.append_assoc]
          exact congrArg (· ++ rest) hahead
        rw [hsplit]
        exact hfront passed middle (back ++ rest) rfl

theorem Lacks.flatMap {β : Type} {write : β → Text} {items : List β}
    (h : ∀ item ∈ items, Lacks name (write item)) : Lacks name (items.flatMap write) :=
  Text.flatMap_closed (.of_not_mem List.not_mem_nil) .append h

theorem Lacks.keyword {other : Text} (hat : '@' ∉ other) (h : ∀ rest, ¬name <+: other ++ rest) :
    Lacks name ('@' :: other) := by
  intro passed ahead rest hsplit
  cases passed with
  | nil =>
      obtain rfl := (List.cons.inj hsplit).2
      exact h rest
  | cons c passed =>
      have hmem : '@' ∈ other := by
        rw [(List.cons.inj hsplit).2]
        exact List.mem_append_right passed List.mem_cons_self
      exact absurd hmem hat

/-- No at-rule's name begins another one's. -/
theorem Kind.not_isPrefix {kind other : Kind} (hne : other ≠ kind) {word : Text}
    (hname : kind.name? = some name) (hword : other.name? = some word) (rest : Text) :
    ¬name <+: word ++ rest := by
  cases kind <;> cases other <;> cases hname <;> cases hword <;>
    first
    | exact absurd rfl hne
    | simp [List.cons_prefix_cons]

end Lacks

/-- A scan moves on by one character where no at-rule of the name begins. -/
def Seeks {α : Type} (name : Text) (move : Text → Move α) : Prop :=
  ∀ text, ¬('@' :: name <+: text) → move text = .pass 1

/-- What stands between elements, and is passed over by every scan. -/
structure Skips {α : Type} (move : Text → Move α) : Prop where
  comments : ∀ entry, Comment.Canonical entry → Passes move (Comment.written entry)
  feed : Passes move ['\n']

namespace Seeks

variable {α : Type} {name : Text} {move : Text → Move α}

theorem passes (h : Seeks name move) {chunk : Text} (hchunk : Lacks name chunk) :
    Passes move chunk := by
  intro before rest
  induction chunk generalizing before with
  | nil => rfl
  | cons c chunk ih =>
      have htail : Lacks name chunk := by
        rintro passed ahead rest rfl
        exact hchunk (c :: passed) ahead rest rfl
      have hnot : ¬('@' :: name <+: [c] ++ (chunk ++ rest)) := by
        rintro hprefix
        obtain ⟨rfl, hname⟩ := List.cons_prefix_cons.mp hprefix
        exact hchunk [] chunk rest rfl hname
      calc scanFrom move 0 before ([c] ++ (chunk ++ rest))
          = scanFrom move 0 (c :: before) (chunk ++ rest) :=
            scanFrom_pass (List.cons_ne_nil c []) (h _ hnot)
        _ = scanFrom move 0 (chunk.reverse ++ c :: before) rest := ih htail (c :: before)
        _ = scanFrom move 0 ((c :: chunk).reverse ++ before) rest := by
            rw [List.reverse_cons, List.append_assoc, List.singleton_append]

theorem skips (h : Seeks name move) : Skips move where
  comments _ hentry := h.passes (.of_not_mem hentry.at_not_mem_written)
  feed := h.passes (.of_not_mem (by decide))

end Seeks

namespace Pattern

variable {name : Text} {pattern : Pattern} {form : Text → Text → Text → Prop}

/-- What a pattern reads is an at-rule of the name. -/
def Names (name : Text) (pattern : Pattern) : Prop :=
  ∀ text reading, pattern text = some reading → '@' :: name <+: text

theorem Reads.names (hreads : pattern.Reads form)
    (h : ∀ {lead value tail}, form lead value tail → '@' :: name <+: lead) : pattern.Names name := by
  intro text reading hreading
  have hlead : reading.lead <+: text := by
    rw [hreads.text_eq hreading, Reading.text, List.append_assoc, List.append_assoc]
    exact List.prefix_append _ _
  exact (h (hreads.form_of_eq_some hreading)).trans hlead

theorem Names.seeks_move (h : pattern.Names name) : Seeks name pattern.move := by
  intro text hnot
  have hnone : pattern text = none :=
    Option.eq_none_iff_forall_ne_some.mpr fun reading hreading => hnot (h text reading hreading)
  rw [move, hnone]

theorem Names.seeks_block (h : pattern.Names name) : Seeks name (Block.move pattern) := by
  intro text hnot
  have hnone : pattern text = none :=
    Option.eq_none_iff_forall_ne_some.mpr fun reading hreading => hnot (h text reading hreading)
  exact Block.move_eq_pass_iff.mpr ⟨hnone, rfl⟩

end Pattern

theorem Kind.pattern?_names (kind : Kind) {pattern : Pattern} {name : Text}
    (hpattern : kind.pattern? = some pattern) (hname : kind.name? = some name) :
    pattern.Names name := by
  have hquoted : ∀ word spaced, (Directive.quoted ('@' :: word) spaced).Names word := by
    intro word spaced
    refine (Directive.quoted_reads _ _).names fun hform => ?_
    obtain ⟨gap, opening, rfl, -⟩ := hform.lead
    rw [List.append_assoc]
    exact List.prefix_append _ _
  have hword : ∀ {word spaced accepts mark} {pattern : Pattern},
      pattern.Reads (Pattern.WordForm ('@' :: word) spaced accepts mark) → pattern.Names word := by
    intro word spaced accepts mark pattern hreads
    refine hreads.names fun hform => ?_
    obtain ⟨gap, rfl, -⟩ := hform.lead
    exact List.prefix_append _ _
  cases kind with
  | charset | imports | config =>
      cases hpattern
      cases hname
      exact hquoted _ _
  | tailwind =>
      cases hpattern
      cases hname
      exact hword Directive.tailwind_reads
  | keyframes =>
      cases hpattern
      cases hname
      exact hword Keyframes.header_reads
  | media =>
      cases hpattern
      cases hname
      refine MediaBlock.header_reads.names fun hform => ?_
      obtain ⟨gap, rfl, -⟩ := hform.lead_eq
      exact List.prefix_append _ _
  | styles => cases hname

end Stylesheet
