import Stylesheet.Config
import Stylesheet.Proofs.CheckedBlocks
import Stylesheet.Proofs.CheckedStyles
import Stylesheet.Proofs.ParseDepth

/-!
# Checked parsing

The parser as a program over byte offsets, with the scanners that it is made of. Whatever the text,
the configuration and the offsets are, it never misuses the text, and its document is the one that
the text has.
-/

namespace Stylesheet.Checked

/-- The sheet with the records of one kind, with what `nested` makes of the nested at-rules. -/
def readKind (nested : Text → Checked (Option Document)) (source : Text) :
    Kind → Checked (Sheet Document)
  | .charset => return { charset := present (← directives Directive.charset source) }
  | .imports => return { imports := present (← directives Directive.imports source) }
  | .tailwind => return { tailwind := present (← directives Directive.tailwind source) }
  | .config => return { config := ← firstDirective Directive.config source }
  | .keyframes => return { keyframes := present (← keyframes source) }
  | .media => return { media := present (← media nested source) }
  | .styles => return { styles := present (← styleRecords source) }

/-- The sheet of every kind, merged in their order. -/
def readKinds (nested : Text → Checked (Option Document)) (source : Text) :
    Checked (Sheet Document) :=
  Kind.all.foldlM (fun sheet kind => return sheet.merge (← readKind nested source kind)) {}

/-- The document of a text found at a depth. A nested at-rule is read one level deeper, unless the
cap drops it. -/
def parseAt (cap : Option Nat) : (fuel depth : Nat) → Text → Checked Document
  | 0, _, _ => .error .stalled
  | fuel + 1, depth, source => do
      let nested : Text → Checked (Option Document) := fun fragment => do
        if Document.keeps cap (depth + 1) then return some (← parseAt cap fuel (depth + 1) fragment)
        else return none
      return ⟨← readKinds nested source⟩

def parse (config : Config) (source : Text) : Checked Document :=
  parseAt config.maxNesting (source.byteSize + 1) 0 source

section Nested

variable {nested : Text → Checked (Option Document)} {expand : Text → Option Document}
  {source : Text}

theorem readKind_eq (hnested : ∀ fragment, fragment.length < source.length →
      nested fragment = .ok (expand fragment)) (kind : Kind) :
    readKind nested source kind = .ok ((kind.read source).expand expand) := by
  have hcharset : Directive.charset.Marked ';' := Directive.marked_quoted _ _
  have himports : Directive.imports.Marked ';' := Directive.marked_quoted _ _
  have hconfig : Directive.config.Marked ';' := Directive.marked_quoted _ _
  have htailwind : Directive.tailwind.Marked ';' := Pattern.marked_word Directive.tailwind_reads
  cases kind with
  | charset =>
      rw [readKind, directives_eq hcharset]
      rfl
  | imports =>
      rw [readKind, directives_eq himports]
      rfl
  | tailwind =>
      rw [readKind, directives_eq htailwind]
      rfl
  | config =>
      rw [readKind, firstDirective_eq hconfig]
      rfl
  | keyframes =>
      rw [readKind, keyframes_eq]
      rfl
  | media =>
      rw [readKind, media_eq source hnested, Kind.read]
      simp only [bind, Except.bind, present_map]
      rfl
  | styles =>
      rw [readKind, styleRecords_eq]
      rfl

theorem readKinds_eq (hnested : ∀ fragment, fragment.length < source.length →
      nested fragment = .ok (expand fragment)) :
    readKinds nested source = .ok ((Sheet.readKinds Kind.all source).expand expand) := by
  have hmerge : ∀ (sheet : Sheet Document) (kind : Kind),
      (do return sheet.merge (← readKind nested source kind) : Checked _) =
        pure (sheet.merge ((kind.read source).expand expand)) := by
    intro sheet kind
    rw [readKind_eq hnested]
    rfl
  rw [readKinds, Sheet.expand_readKinds]
  simp only [hmerge, List.foldlM_pure]
  rfl

end Nested

/-- More fuel than the text has characters is enough at every depth. -/
theorem parseAt_eq (cap : Option Nat) {fuel : Nat} (depth : Nat) {source : Text}
    (hfuel : source.length < fuel) :
    parseAt cap fuel depth source = .ok (Document.parseAt cap depth source) := by
  induction fuel generalizing depth source with
  | zero => exact absurd hfuel (Nat.not_lt_zero _)
  | succ fuel ih =>
      have hnested : ∀ fragment : Text, fragment.length < source.length →
          (do if Document.keeps cap (depth + 1) then
                return some (← parseAt cap fuel (depth + 1) fragment)
              else return none : Checked (Option Document)) =
            .ok (Document.parseNested cap (depth + 1) fragment) := by
        intro fragment hfragment
        rw [ih (depth + 1) (Nat.lt_of_lt_of_le hfragment (Nat.le_of_lt_succ hfuel)),
          Document.parseNested]
        cases Document.keeps cap (depth + 1) <;> rfl
      rw [parseAt, Document.parseAt_eq]
      simp only [readKinds_eq hnested]
      rfl

theorem parse_eq (config : Config) (source : Text) :
    parse config source = .ok (config.parse source) := by
  refine parseAt_eq config.maxNesting 0 ?_
  have hlength := Text.length_le_byteSize source
  omega

/-- No scanner cuts the text beyond its end or inside a character, whatever the configuration, the
start of a block and the offset are. -/
theorem scanners_eq_ok (config : Config) (source : Text) :
    parse config source = .ok (config.parse source) ∧
      (∀ start, closingBrace source start = .ok (closingBrace? source start)) ∧
      (∀ offset adjacency, attachedComments source offset adjacency =
        .ok (Stylesheet.attachedComments source offset adjacency)) ∧
      ∀ offset, lineNumber source offset = .ok (source.lineNumber offset) :=
  ⟨parse_eq config source, closingBrace_eq source, attachedComments_eq source, lineNumber_eq source⟩

end Stylesheet.Checked
