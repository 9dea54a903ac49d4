import Mathlib.Data.List.Basic
import Stylesheet.Config
import Stylesheet.Proofs.ParsedRules
import Stylesheet.Proofs.RoundTrip

/-!
# Rendering what was parsed

The style rules of a text without at sign are found again in the text that is written for them, as
long as what was kept of each rule is read as it was kept. Text that was left out may have closed a
comment or a brace of what was kept, and two pieces that it parted may now begin a comment.
-/

namespace Stylesheet

/-- A rule of which no part is read as something else once the rule is written. -/
@[mk_iff]
structure Rule.Settled (rule : Rule) : Prop where
  comment : ¬['/', '*'] <+: rule.selector
  closes : interior? (rule.interior 1 [] ++ ['}']) = some (rule.interior 1 [], [])
  declarations : ∀ declaration ∈ rule.declarations,
    Declaration.stripComments declaration.piece.trim = declaration.piece.trim

instance : DecidablePred Rule.Settled := fun rule =>
  decidable_of_iff' _ (Rule.settled_iff rule)

@[mk_iff]
structure Record.Settled (record : Record Rule) : Prop where
  comment : ∀ entries ∈ record.comment, ∀ entry ∈ entries, ¬['*', '/'] <:+: entry
  content : record.content.Settled

instance : DecidablePred Record.Settled := fun record =>
  decidable_of_iff' _ (Record.settled_iff record)

namespace StyleRule

variable {text : Text} {record : Record Rule}

theorem canonical_of_mem_records (hat : '@' ∉ text) (h : record ∈ records text)
    (hsettled : record.Settled) : record.Canonical Rule.Readable := by
  obtain ⟨passed, front, opened, interior, rest, rfl, hopening, hne, -, hcomment, hcontent⟩ :=
    exists_of_mem_records h
  have hfront : Text.trim front ⊆ front := (Text.trim_isInfix front).subset
  have hpassed : '@' ∉ passed.reverse := fun hmem =>
    hat (List.mem_append_left _ (List.mem_reverse.mp hmem))
  have hselector : '@' ∉ front := fun hmem =>
    hat (List.mem_append_right _ (List.mem_append_left _ hmem))
  have hsettledRule := hsettled.content
  refine ⟨?_, ?_, ?_⟩
  · rw [hcomment]
    exact Adjacency.attached_ne_some_nil _ _
  · intro entries hentries entry hentry
    have hattached : Adjacency.strict.attached passed.reverse = some entries :=
      hcomment.symm.trans hentries
    exact Adjacency.canonical_of_attached hpassed hattached hentry
      (hsettled.comment entries hentries entry hentry)
  · rw [hcontent] at hsettledRule ⊢
    exact {
      selector_ne_nil := hne
      selector_trimmed := Text.trim_trim front
      opening := fun hmem => hopening (hfront hmem)
      at_sign := fun hhead => hselector (hfront (List.mem_of_head? hhead))
      comment := hsettledRule.comment
      closes := hsettledRule.closes
      declarations := fun declaration hmem =>
        Declaration.separable_of_mem_splitStripped hmem (hsettledRule.declarations declaration hmem) }

theorem at_not_mem_block (hat : '@' ∉ text) (h : record ∈ records text) :
    '@' ∉ record.content.block 1 [] := by
  obtain ⟨passed, front, opened, interior, rest, rfl, -, -, hinterior, -, hcontent⟩ :=
    exists_of_mem_records h
  rw [interior?_eq_append hinterior] at hat
  simp only [List.mem_append, List.mem_cons, not_or] at hat
  obtain ⟨-, hfront, -, hbody, -⟩ := hat
  rw [hcontent]
  apply Rule.at_not_mem_block
  · exact Text.not_mem_trim hfront
  · intro declaration hdeclaration hmem
    rcases Declaration.mem_of_mem_splitStripped hdeclaration hmem with ⟨hmem, -⟩ | hspace
    · exact hbody hmem
    · exact absurd hspace (by decide)
  · exact List.not_mem_nil

def isBrace (c : Char) : Bool :=
  c = '{' || c = '}'

/-- A text in which no block opens within another one: of its braces no two that follow each other
are opening ones. -/
def Flat (text : Text) : Prop :=
  ¬['{', '{'] <:+: text.filter isBrace

instance : DecidablePred Flat := fun text =>
  inferInstanceAs (Decidable (¬['{', '{'] <:+: text.filter isBrace))

theorem Flat.closing_mem {passed between rest : Text} (hopening : '{' ∉ between)
    (h : Flat (passed ++ '{' :: (between ++ '{' :: rest))) : '}' ∈ between := by
  by_contra hclosing
  have hnone : between.filter isBrace = [] := by
    refine List.filter_eq_nil_iff.mpr fun c hc => ?_
    have hne : c ≠ '{' := ne_of_mem_of_not_mem hc hopening
    have hne' : c ≠ '}' := ne_of_mem_of_not_mem hc hclosing
    simp [isBrace, hne, hne']
  apply h
  rw [List.filter_append, List.filter_cons_of_pos rfl, List.filter_append, hnone, List.nil_append,
    List.filter_cons_of_pos rfl]
  exact ⟨passed.filter isBrace, rest.filter isBrace, by simp⟩

theorem Flat.braces {passed opened interior rest : Text} (hflat : Flat (passed ++ '{' :: opened))
    (hcomment : ¬['/', '*'] <:+: opened) (hinterior : interior? opened = some (interior, rest)) :
    '{' ∉ interior ∧ '}' ∉ interior := by
  obtain rfl := interior?_eq_append hinterior
  have hmem : '}' ∈ interior ++ '}' :: rest := List.mem_append_right _ List.mem_cons_self
  obtain ⟨front, back, hsplit, hclosing⟩ := List.eq_append_cons_of_mem hmem
  rw [hsplit] at hflat hcomment hinterior
  have hopening : '{' ∉ front := by
    intro hbrace
    obtain ⟨between, others, rfl, hbetween⟩ := List.eq_append_cons_of_mem hbrace
    rw [List.append_assoc, List.cons_append] at hflat
    exact hclosing (List.mem_append_left _ (hflat.closing_mem hbetween))
  have hfront : ¬['/', '*'] <:+: front := fun hpair =>
    hcomment (hpair.trans (List.prefix_append front _).isInfix)
  rw [interior?_of_not_mem hopening hclosing hfront back] at hinterior
  obtain ⟨rfl, -⟩ := Prod.mk.inj (Option.some.inj hinterior)
  exact ⟨hopening, hclosing⟩

/-- Without comments and nested blocks every rule is settled. -/
theorem settled_of_flat (hat : '@' ∉ text) (hcomment : ¬['/', '*'] <:+: text) (hflat : Flat text)
    (h : record ∈ records text) : record.Settled := by
  obtain ⟨passed, front, opened, interior, rest, rfl, -, -, hinterior, hattached, hcontent⟩ :=
    exists_of_mem_records h
  have hopened : opened <:+: passed ++ (front ++ '{' :: opened) :=
    ⟨passed ++ (front ++ ['{']), [], by simp⟩
  have hinside : interior <:+: opened := by
    rw [interior?_eq_append hinterior]
    exact (List.prefix_append interior _).isInfix
  have hselector : Text.trim front <:+: passed ++ (front ++ '{' :: opened) :=
    (Text.trim_isInfix front).trans ⟨passed, '{' :: opened, by simp⟩
  have hpassed : ¬['*', '/'] <:+: passed.reverse := by
    intro hpair
    have hopener : ['/', '*'].reverse <:+: passed.reverse := hpair
    rw [List.reverse_infix] at hopener
    exact hcomment (hopener.trans (List.prefix_append passed _).isInfix)
  rw [← List.append_assoc] at hflat
  obtain ⟨hopening, hclosing⟩ :=
    hflat.braces (fun hpair => hcomment (hpair.trans hopened)) hinterior
  have hdeclarations : ∀ declaration ∈ Declaration.splitStripped interior, declaration.Canonical :=
    fun declaration hmem => Declaration.canonical_of_mem_splitStripped hmem
      (fun hmem => hat (hopened.subset (hinside.subset hmem))) hopening hclosing
      (fun hpair => hcomment (hpair.trans (hinside.trans hopened)))
  constructor
  · rw [hattached, Adjacency.attached_eq_none hpassed]
    exact fun _ hnone => nomatch hnone
  · rw [hcontent]
    exact {
      comment := fun hopener => hcomment (hopener.isInfix.trans hselector)
      closes := (Rule.balanced_interior hdeclarations 1 (List.forall_mem_nil _)).interior?_eq []
      declarations := fun declaration hmem => (hdeclarations declaration hmem).separable.comments }

/-! ### Written rules -/

variable {records : List (Record Rule)}

/-- The text of style rules, without the line feeds that the kinds before them leave. -/
def listing (records : List (Record Rule)) : Text :=
  records.flatMap (Record.render Rule.render) ++ ['\n']

/-- Style rules are found again, each with its comments. -/
theorem records_listing (h : ∀ record ∈ records, record.Canonical Rule.Readable)
    (hat : ∀ record ∈ records, '@' ∉ record.content.block 1 []) :
    (StyleRule.records (List.replicate 6 '\n' ++ listing records)).map Record.unlined =
      records.map Record.unlined := by
  have hlisted : Listed (Rule.block 1 []) records (listing records) :=
    (Listed.of_flatMap 2 Rule.render_eq records).of_map
  have hcores : ∀ record ∈ records, Kind.styles.Core (record.content.block 1 []) :=
    fun record hmem => Rule.core_block (hat record hmem)
  have hfeeds : Walks move (Sheet.found .strict id) Adjacency.strict.Bare
      (List.replicate 6 '\n') [] Adjacency.strict.Bare := skips.walks_feeds 6
  have hwalk := hfeeds.append (Sheet.walks_found hlisted skips h hcores Rule.takes_readable)
  rw [StyleRule.records, List.map_map]
  exact hwalk.scan_eq (Adjacency.bare_nil .strict)

theorem at_not_mem_listing (h : ∀ record ∈ records, record.Canonical Rule.Readable)
    (hat : ∀ record ∈ records, '@' ∉ record.content.block 1 []) : '@' ∉ listing records := by
  have hrecord : ∀ record ∈ records, '@' ∉ record.render Rule.render := by
    intro record hmem
    have hcomments : '@' ∉ renderComments record.comment :=
      at_not_mem_renderComments (h record hmem).comment
    have hrule : '@' ∉ record.content.render := by
      rw [Rule.render_eq, List.mem_append, not_or]
      exact ⟨hat record hmem, by decide⟩
    rw [Record.render, List.mem_append, not_or]
    exact ⟨hcomments, hrule⟩
  rw [listing, List.mem_append, not_or]
  refine ⟨fun hmem => ?_, by decide⟩
  obtain ⟨record, hmem, hat⟩ := List.mem_flatMap.mp hmem
  exact hrecord record hmem hat

end StyleRule

namespace Document

variable {records : List (Record Rule)}

theorem render_styles (records : List (Record Rule)) : render ⟨{ styles := present records }⟩ =
    List.replicate 6 '\n' ++ StyleRule.listing records := by
  rw [render_mk]
  simp [Sheet.render, Sheet.renderKind, Kind.all, Sheet.map, Sheet.mapMedia, Text.unlines,
    StyleRule.listing, getD_present]

theorem parse_of_not_mem (cap : Option Nat) {text : Text} (h : '@' ∉ text) :
    parse cap text = ⟨{ styles := present (StyleRule.records text) }⟩ := by
  rw [parse_eq_parseAt, parseAt_eq, Sheet.readKinds_of_not_mem h]
  rfl

theorem unlined_styles (records : List (Record Rule)) :
    unlined ⟨{ styles := present records }⟩ =
      ⟨{ styles := present (records.map Record.unlined) }⟩ := by
  rw [unlined_mk, present_map]
  rfl

/-- A document of style rules is what is parsed from its text, if none of its parts is read as
something else. -/
theorem parse_render_styles (cap : Option Nat)
    (h : ∀ record ∈ records, record.Canonical Rule.Readable)
    (hat : ∀ record ∈ records, '@' ∉ record.content.block 1 []) :
    (parse cap (render ⟨{ styles := present records }⟩)).unlined =
      unlined ⟨{ styles := present records }⟩ := by
  have htext : '@' ∉ List.replicate 6 '\n' ++ StyleRule.listing records := by
    rw [List.mem_append, not_or]
    exact ⟨by decide, StyleRule.at_not_mem_listing h hat⟩
  rw [render_styles, parse_of_not_mem cap htext, unlined_styles, unlined_styles,
    StyleRule.records_listing h hat]

theorem parse_render_of_settled (cap : Option Nat) {source : Text} (hat : '@' ∉ source)
    (hsettled : ∀ record ∈ StyleRule.records source, record.Settled) :
    (parse cap (parse cap source).render).unlined = (parse cap source).unlined := by
  rw [parse_of_not_mem cap hat]
  apply parse_render_styles
  · exact fun record hmem => StyleRule.canonical_of_mem_records hat hmem (hsettled record hmem)
  · exact fun record hmem => StyleRule.at_not_mem_block hat hmem

end Document

/-- **Plain stylesheets survive rendering.** The style rules of a text without at sign are parsed
again from what is rendered, if what was kept of each of them is read as it was kept. -/
theorem Config.parse_render_parse (config : Config) {source : Text} (hat : '@' ∉ source)
    (hsettled : ∀ record ∈ (config.parse source).sheet.styles.getD [], record.Settled) :
    (config.parse (config.parse source).render).unlined = (config.parse source).unlined := by
  have hparse : config.parse source = ⟨{ styles := present (StyleRule.records source) }⟩ :=
    Document.parse_of_not_mem config.maxNesting hat
  rw [hparse, getD_present] at hsettled
  exact Document.parse_render_of_settled config.maxNesting hat hsettled

/-- A comment over two lines, one that is taken out of a declaration, a piece without colon, and a
stray brace that becomes part of a selector. -/
def mixed : Text :=
  "/* one\n  two */ a,b\n\x7b /* x */ top : 0; half; c: d;; \x7d\x7d e\x7b\x7d".toList

theorem Config.parse_render_parse_mixed :
    (∀ record ∈ (Config.parse {} mixed).sheet.styles.getD [], record.Settled) ∧
      (Config.parse {} (Config.parse {} mixed).render).unlined = (Config.parse {} mixed).unlined := by
  have hsettled : ∀ record ∈ (Config.parse {} mixed).sheet.styles.getD [], record.Settled := by
    decide
  exact ⟨hsettled, Config.parse_render_parse {} (by decide) hsettled⟩

/-- A declaration that is commented out. The semicolon parts the comment, its end has no colon and is
left out, and the beginning that is kept swallows the rest of what is rendered. -/
def commented : Text :=
  "a \x7b /* color: red; */ \x7d".toList

theorem Config.parse_render_commented_ne : '@' ∉ commented ∧
    (Config.parse {} (Config.parse {} commented).render).unlined ≠
      (Config.parse {} commented).unlined := by
  refine ⟨by decide, fun heq => ?_⟩
  have hstyles : (Config.parse {} (Config.parse {} commented).render).unlined.sheet.styles.isSome =
      (Config.parse {} commented).unlined.sheet.styles.isSome := by rw [heq]
  revert hstyles
  decide

/-- Nothing more has to be asked of a text without comments and nested blocks. -/
theorem Config.parse_render_parse_of_flat (config : Config) {source : Text} (hat : '@' ∉ source)
    (hcomment : ¬['/', '*'] <:+: source) (hflat : StyleRule.Flat source) :
    (config.parse (config.parse source).render).unlined = (config.parse source).unlined := by
  apply Document.parse_render_of_settled config.maxNesting hat
  exact fun record hmem => StyleRule.settled_of_flat hat hcomment hflat hmem

example : StyleRule.Flat "\x7da\x7bb:c;d\x7d\x7be\x7d".toList := by decide

end Stylesheet
