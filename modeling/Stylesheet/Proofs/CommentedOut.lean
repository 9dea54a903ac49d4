import Mathlib.Data.List.Forall2
import Stylesheet.Config
import Stylesheet.Proofs.ElementReading
import Stylesheet.Proofs.LeadingText
import Stylesheet.Proofs.ParseDepth

/-!
# Commented-out text in front of a source

The scan for style rules passes over a comment whole. The scans for at-rules do not look for
comments: what is commented out adds nothing to a kind as long as no element of the kind begins in
it. Where nothing is added, the elements of the source are found again, later by the lines of the
comment, and all but those that the comment is joined to have the comments they had.
-/

namespace Stylesheet

/-- A text commented out, on lines of its own. -/
def Text.commentedOut (text : Text) : Text :=
  "/*".toList ++ text ++ "*/\n".toList

/-- At no place of `front` does an element of the kind begin when `rest` follows. Style rules begin
with no keyword, so they are not asked for. -/
def Kind.Silent (kind : Kind) (front rest : Text) : Prop :=
  ∀ pattern ∈ kind.pattern?, ∀ ahead, ahead <:+ front → ahead ≠ [] → pattern (ahead ++ rest) = none

instance (kind : Kind) (front rest : Text) : Decidable (kind.Silent front rest) :=
  decidable_of_iff (∀ pattern ∈ kind.pattern?, ∀ ahead ∈ front.tails, ahead ≠ [] →
    pattern (ahead ++ rest) = none) (by simp only [List.mem_tails, Kind.Silent])

/-- A record of what was found at a site when `lead` stands in front of the text: the content is the
same, the line is later, and comments may come in front of those there are if nothing parts the
element from `lead`. -/
structure Site.Recurs {α : Type} (adjacency : Adjacency) (lead : Text) (site : Site α)
    (record : Record α) : Prop where
  content : record.content = site.content
  line : record.line = site.line + lead.count '\n'
  comments : (adjacency.attached site.before).getD [] <:+ record.comment.getD []
  apart : ¬adjacency.Joined site.before.reverse →
    record.comment = adjacency.attached site.before

/-- The finds at the sites of a text are kept as `earlier`, and once more, one by one and with
nothing between them, as `later` when `lead` stands in front of the text. -/
structure Recurrence {α γ : Type} (adjacency : Adjacency) (lead : Text) (sites : List (Site α))
    (keep : List (Record α) → γ) (earlier later : γ) : Prop where
  earlier_eq : earlier = keep (sites.map (Site.record adjacency))
  later_eq : ∃ records, later = keep records ∧
    List.Forall₂ (Site.Recurs adjacency lead) sites records

/-- The elements of the kind are found again when `lead` stands in front of a source. -/
def Kind.Recurs (kind : Kind) (config : Config) (lead source : Text) : Prop :=
  let earlier := (config.parse source).sheet
  let later := (config.parse (lead ++ source)).sheet
  let directives (pattern : Pattern) := (pattern.occurrences source).map (Site.map Reading.value)
  match kind with
  | .charset => Recurrence .strict lead (directives Directive.charset) present
      earlier.charset later.charset
  | .imports => Recurrence .strict lead (directives Directive.imports) present
      earlier.imports later.imports
  | .tailwind => Recurrence .strict lead (directives Directive.tailwind) present
      earlier.tailwind later.tailwind
  | .config => Recurrence .strict lead (directives Directive.config) List.head?
      earlier.config later.config
  | .keyframes => Recurrence .loose lead
      ((Block.sites Keyframes.header source).map (Site.map Keyframes.ofBlock)) present
      earlier.keyframes later.keyframes
  | .media => Recurrence .strict lead
      ((Block.sites MediaBlock.header source).map (Site.map fun block =>
        (MediaBlock.ofBlock block).expand (Document.parseNested config.maxNesting 1))) present
      earlier.media later.media
  | .styles => Recurrence .strict lead (scan StyleRule.move source) present
      earlier.styles later.styles

section Recurrence

variable {α β γ : Type} {move : Text → Move α} {text source : Text}

theorem reverse_commentedOut (text : Text) :
    ∃ more, text.commentedOut.reverse = '\n' :: more := by
  exact ⟨(("/*".toList ++ text) ++ "*/".toList).reverse, by simp [Text.commentedOut]⟩

theorem recurs_commentedOut (adjacency : Adjacency) (text : Text) (site : Site α) :
    site.Recurs adjacency text.commentedOut ((site.behind text.commentedOut).record adjacency) := by
  obtain ⟨more, hmore⟩ := reverse_commentedOut text
  obtain ⟨hcomments, hapart⟩ := adjacency.attached_append_feed more site.before
  refine ⟨rfl, site.line_behind _, ?_, ?_⟩
  · rw [Site.record, Site.behind, hmore]
    exact hcomments
  · rw [Site.record, Site.behind, hmore]
    exact hapart

/-- A scan that goes on behind the comment as it does without it finds everything again. -/
theorem recurrence_of_scan (keep : List (Record β) → γ) (f : α → β) (adjacency : Adjacency)
    (hscan : scan move (text.commentedOut ++ source) =
      (scan move source).map (Site.behind text.commentedOut)) :
    Recurrence adjacency text.commentedOut ((scan move source).map (Site.map f)) keep
      (keep ((scan move source).map fun site => (site.map f).record adjacency))
      (keep ((scan move (text.commentedOut ++ source)).map fun site =>
        (site.map f).record adjacency)) where
  earlier_eq := by rw [List.map_map]; rfl
  later_eq := by
    refine ⟨_, rfl, ?_⟩
    rw [hscan, List.map_map, List.forall₂_map_left_iff, List.forall₂_map_right_iff]
    exact List.forall₂_same.mpr fun site _ => recurs_commentedOut adjacency text (site.map f)

end Recurrence

section Scans

variable {kind : Kind} {front rest : Text}

theorem Kind.Silent.scan_pattern {pattern : Pattern} (h : kind.Silent front rest)
    (hpattern : kind.pattern? = some pattern) :
    scan pattern.move (front ++ rest) = (scan pattern.move rest).map (Site.behind front) := by
  refine scan_append_of_pass fun passed ahead hsplit hne => ?_
  rw [Pattern.move, h pattern hpattern ahead ⟨passed, hsplit.symm⟩ hne]

theorem Kind.Silent.scan_block {header : Pattern} (h : kind.Silent front rest)
    (hheader : kind.pattern? = some header) :
    Block.sites header (front ++ rest) = (Block.sites header rest).map (Site.behind front) :=
  scan_append_of_pass fun passed ahead hsplit hne =>
    Block.move_eq_pass_iff.mpr ⟨h header hheader ahead ⟨passed, hsplit.symm⟩ hne, rfl⟩

end Scans

/-- The scan for style rules passes over the comment, whatever is in it. -/
theorem StyleRule.passes_commentedOut {text : Text} (h : ¬['*', '/'] <:+: text) :
    Passes move text.commentedOut := by
  have hsplit : text.commentedOut = "/*".toList ++ text ++ "*/".toList ++ ['\n'] := by
    simp [Text.commentedOut]
  rw [hsplit]
  exact (passes_comment h).append passes_feed

/-- **Commenting out.** A comment in front of a source adds nothing to the style rules, and nothing
to another kind unless an element of that kind begins in it. The elements of the source are found
again in their order, later by the lines of the comment; only those that the comment is joined to
may have more comments in front of the ones they had. -/
theorem Config.recurs_parse_commentedOut (config : Config) {text : Text}
    (htext : ¬['*', '/'] <:+: text) (source : Text) (kind : Kind)
    (hsilent : kind.Silent text.commentedOut source) :
    kind.Recurs config text.commentedOut source := by
  unfold Kind.Recurs parse
  simp only [Document.parse_eq_parseAt, Document.sheet_parseAt]
  cases kind with
  | charset => exact recurrence_of_scan present Reading.value .strict (hsilent.scan_pattern rfl)
  | imports => exact recurrence_of_scan present Reading.value .strict (hsilent.scan_pattern rfl)
  | tailwind => exact recurrence_of_scan present Reading.value .strict (hsilent.scan_pattern rfl)
  | config => exact recurrence_of_scan List.head? Reading.value .strict (hsilent.scan_pattern rfl)
  | keyframes =>
      exact recurrence_of_scan present Keyframes.ofBlock .loose (hsilent.scan_block rfl)
  | media =>
      rw [MediaBlock.records, MediaBlock.records, List.map_map, List.map_map]
      exact recurrence_of_scan present _ .strict (hsilent.scan_block rfl)
  | styles =>
      have hid : Site.map (id : Rule → Rule) = id := rfl
      have hrecurs := recurrence_of_scan present id .strict
        ((StyleRule.passes_commentedOut htext).scan_append source)
      rw [hid, List.map_id] at hrecurs
      exact hrecurs

/-- A directive without its value, the opener of a comment, a brace, and a keyword. -/
def disabled : Text :=
  "@import ;\n/* \x7b @media".toList

def enabled : Text :=
  "/* a */ @import 'b';@media c\x7bd\x7be:f\x7d\x7d\ng\x7bh:i\x7d".toList

theorem Config.recurs_parse_disabled :
    ¬['*', '/'] <:+: disabled ∧ Kind.imports.Silent disabled.commentedOut enabled ∧
      Kind.imports.Recurs {} disabled.commentedOut enabled := by
  have hcloser : ¬['*', '/'] <:+: disabled := by decide
  have hsilent : Kind.imports.Silent disabled.commentedOut enabled := by decide
  exact ⟨hcloser, hsilent, recurs_parse_commentedOut {} hcloser enabled .imports hsilent⟩

def directive : Text :=
  "@tailwind base;".toList

/-- A directive behind a closer without opener. -/
def strayed : Text :=
  "x */ @import 'a';".toList

/-- A directive that is commented out is read. The stray closer is read back to the opener in front
of it, although text stands between them. -/
theorem Config.parse_commentedOut_directive :
    ¬['*', '/'] <:+: directive ∧
      (Config.parse {} strayed).sheet.tailwind = none ∧
      (Config.parse {} (directive.commentedOut ++ strayed)).sheet.tailwind =
        some [⟨none, 1, "base".toList⟩] ∧
      (Config.parse {} strayed).sheet.imports = some [⟨none, 1, "a".toList⟩] ∧
      (Config.parse {} (directive.commentedOut ++ strayed)).sheet.imports =
        some [⟨some ["@tailwind base;*/\nx".toList], 2, "a".toList⟩] :=
  ⟨by decide, rfl, rfl, rfl, rfl⟩

end Stylesheet
