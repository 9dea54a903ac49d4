import Stylesheet.Proofs.Fragments
import Stylesheet.Proofs.ParsedRules

/-!
# Well-formed documents

Whatever the text, the records that are parsed from it have names, selectors and queries without the
marks that end these, trimmed declarations, and normalized comments; and a kind that is there has
records. This holds at every depth, since nested at-rules are parsed like the source.
-/

namespace Stylesheet

open Text (Trimmed)

/-! ### What is well-formed -/

namespace Declaration

/-- A declaration that was cut out at semicolons and parted at its first colon. -/
structure Parted (declaration : Declaration) : Prop where
  property_trimmed : Trimmed declaration.property
  property_colon : ':' ∉ declaration.property
  property_semicolon : ';' ∉ declaration.property
  value_trimmed : Trimmed declaration.value
  value_semicolon : ';' ∉ declaration.value

/-- A declaration of a keyframe step. -/
structure Named (declaration : Declaration) : Prop where
  property_ne_nil : declaration.property ≠ []
  property : ∀ c ∈ declaration.property, c.isAlpha = true ∨ c = '-'
  value_trimmed : Trimmed declaration.value
  value_semicolon : ';' ∉ declaration.value
  value_closing : '}' ∉ declaration.value

end Declaration

structure Rule.WellFormed (rule : Rule) : Prop where
  selector_ne_nil : rule.selector ≠ []
  selector_trimmed : Trimmed rule.selector
  selector_opening : '{' ∉ rule.selector
  declarations : ∀ declaration ∈ rule.declarations, declaration.Parted

structure Keyframes.WellFormed (keyframes : Keyframes) : Prop where
  name_ne_nil : keyframes.name ≠ []
  name : ∀ c ∈ keyframes.name, c.isAlphanum = true ∨ c = '_' ∨ c = '-'
  steps : ∀ step ∈ keyframes.steps, ∀ declaration ∈ step.declarations, declaration.Named

/-- A media block; what is nested in it is not asked for. -/
structure MediaBlock.WellFormed {δ : Type} (block : MediaBlock δ) : Prop where
  query_trimmed : Trimmed block.query
  query_opening : '{' ∉ block.query
  rules : ∀ rule, .style rule ∈ block.rules → rule.WellFormed ∧ '@' ∉ rule.selector

namespace Directive

structure WellFormedQuoted (value : Text) : Prop where
  ne_nil : value ≠ []
  double_quote : '"' ∉ value
  single_quote : '\'' ∉ value

structure WellFormedWord (value : Text) : Prop where
  ne_nil : value ≠ []
  word : ∀ c ∈ value, c.isAlphanum = true ∨ c = '_'

end Directive

namespace Record

variable {α : Type}

structure WellFormed (content : α → Prop) (record : Record α) : Prop where
  comment_ne_nil : record.comment ≠ some []
  comment : ∀ entries ∈ record.comment, ∀ entry ∈ entries, Comment.normalize entry = entry
  content : content record.content

structure WellFormedKind (content : α → Prop) (records : Option (List (Record α))) : Prop where
  ne_nil : records ≠ some []
  record : ∀ list ∈ records, ∀ record ∈ list, record.WellFormed content

end Record

/-- The records of a sheet itself, without those of nested at-rules. -/
structure Sheet.WellFormed {δ : Type} (sheet : Sheet δ) : Prop where
  charset : Record.WellFormedKind Directive.WellFormedQuoted sheet.charset
  imports : Record.WellFormedKind Directive.WellFormedQuoted sheet.imports
  tailwind : Record.WellFormedKind Directive.WellFormedWord sheet.tailwind
  config : ∀ record ∈ sheet.config, record.WellFormed Directive.WellFormedQuoted
  keyframes : Record.WellFormedKind Keyframes.WellFormed sheet.keyframes
  media : Record.WellFormedKind MediaBlock.WellFormed sheet.media
  styles : Record.WellFormedKind Rule.WellFormed sheet.styles

/-! ### What scans take -/

namespace Declaration

variable {declaration : Declaration} {body piece : Text}

theorem parted_of_ofPiece? (hpiece : ';' ∉ piece) (h : ofPiece? piece = some declaration) :
    declaration.Parted := by
  obtain ⟨front, back, rfl, hcolon, rfl⟩ := ofPiece?_eq_some_iff.mp h
  rw [List.mem_append, List.mem_cons, not_or, not_or] at hpiece
  obtain ⟨hfront, -, hback⟩ := hpiece
  exact {
    property_trimmed := Text.trim_trim front
    property_colon := Text.not_mem_trim hcolon
    property_semicolon := Text.not_mem_trim hfront
    value_trimmed := Text.trim_trim back
    value_semicolon := Text.not_mem_trim hback }

theorem parted_of_mem_split (h : declaration ∈ split body) : declaration.Parted := by
  obtain ⟨segment, hsegment, hpiece⟩ := List.mem_filterMap.mp h
  exact parted_of_ofPiece? (lacks_of_mem_segments hsegment).1 hpiece

theorem parted_of_mem_splitStripped (h : declaration ∈ splitStripped body) :
    declaration.Parted := by
  obtain ⟨segment, hsegment, hpiece⟩ := exists_of_mem_splitStripped h
  refine parted_of_ofPiece? (Text.not_mem_trim fun hmem => ?_) hpiece
  exact (lacks_of_mem_segments hsegment).1 (stripComments_subset segment hmem)

theorem named_of_mem_matching (hclosing : '}' ∉ body) (h : declaration ∈ matching body) :
    declaration.Named := by
  obtain ⟨value, hne, hname, hvalue, hsemicolon, hinfix⟩ := exists_of_mem_matching h
  have hbody : value <:+: body := (List.prefix_append value [';']).isInfix.trans hinfix
  exact {
    property_ne_nil := hne
    property := fun c hc => by simpa [isNameChar] using hname c hc
    value_trimmed := hvalue ▸ Text.trim_trim value
    value_semicolon := hvalue ▸ Text.not_mem_trim hsemicolon
    value_closing := hvalue ▸ Text.not_mem_trim fun hmem => hclosing (hbody.subset hmem) }

end Declaration

theorem StyleRule.wellFormed_of_move {text : Text} {rule : Rule} {length : Nat}
    (h : move text = .take rule length) : rule.WellFormed := by
  obtain ⟨front, opened, interior, rest, -, hopening, hne, -, rfl⟩ :=
    exists_of_readRule (readRule_of_move h)
  exact {
    selector_ne_nil := hne
    selector_trimmed := Text.trim_trim front
    selector_opening := Text.not_mem_trim hopening
    declarations := fun _ => Declaration.parted_of_mem_splitStripped }

namespace Keyframes

theorem wellFormed_of_move {text : Text} {block : Block} {length : Nat}
    (h : Block.move header text = .take block length) : (ofBlock block).WellFormed where
  name_ne_nil := (header_reads.form_of_eq_some (Block.move_eq_take_iff.mp h).1).value_ne_nil
  name c hc := by
    have hchar := (header_reads.form_of_eq_some (Block.move_eq_take_iff.mp h).1).value c hc
    simpa [isNameChar, or_assoc] using hchar
  steps step hstep := by
    obtain ⟨passed, ahead, size, -, hmove⟩ := mem_scanContents hstep
    obtain ⟨run, body, rest, hform, -⟩ := stepMove_eq_take_iff.mp hmove
    rw [hform.step_eq]
    exact fun declaration => Declaration.named_of_mem_matching (Text.not_mem_trim hform.closing)

end Keyframes

namespace MediaBlock

variable {text : Text} {block : Block} {length : Nat}

/-- A trimmed run that does not begin with an at sign was read as a selector. -/
theorem wellFormed_of_ruleOf? {rule : Rule} (h : Block.move innerHeader text = .take block length)
    (hrule : ruleOf? block = some (.style rule)) : rule.WellFormed ∧ '@' ∉ rule.selector := by
  have hform := innerHeader_reads.form_of_eq_some (Block.move_eq_take_iff.mp h).1
  unfold ruleOf? at hrule
  split at hrule
  · contradiction
  · cases hrule
  · next hne hat =>
      obtain rfl := MediaRule.style.inj (Option.some.inj hrule)
      have hselector : ∀ c ∈ block.header.value.trim, isSelectorChar c = true := by
        rcases hform.run with ⟨name, hvalue, -, -⟩ | ⟨-, hvalue⟩
        · rw [hvalue, Text.trim_cons (by decide)] at hat
          exact absurd rfl (hat _)
        · exact fun c hc => hvalue c ((Text.trim_isInfix _).subset hc)
      refine ⟨?_, Text.not_mem_of_forall hselector rfl⟩
      exact {
        selector_ne_nil := hne
        selector_trimmed := Text.trim_trim _
        selector_opening := Text.not_mem_of_forall hselector rfl
        declarations := fun _ => Declaration.parted_of_mem_split }

theorem wellFormed_of_move (h : Block.move header text = .take block length) :
    (ofBlock block).WellFormed where
  query_trimmed := Text.trim_trim _
  query_opening :=
    Text.not_mem_trim (header_reads.form_of_eq_some (Block.move_eq_take_iff.mp h).1).not_mem
  rules rule hrule := by
    obtain ⟨inner, hinner, hruleOf⟩ := List.mem_filterMap.mp hrule
    obtain ⟨passed, ahead, size, -, hmove⟩ := mem_scanContents hinner
    exact wellFormed_of_ruleOf? hmove hruleOf

theorem WellFormed.expand {δ ε : Type} {block : MediaBlock δ} (h : block.WellFormed)
    (f : δ → Option ε) : (block.expand f).WellFormed where
  query_trimmed := h.query_trimmed
  query_opening := h.query_opening
  rules rule hrule := by
    obtain ⟨inner, hinner, hexpand⟩ := List.mem_filterMap.mp hrule
    cases inner with
    | style other =>
        obtain rfl := MediaRule.style.inj (Option.some.inj hexpand)
        exact h.rules other hinner
    | atRule nested =>
        obtain ⟨_, -, hatRule⟩ := Option.map_eq_some_iff.mp hexpand
        cases hatRule

end MediaBlock

namespace Directive

variable {text : Text} {reading : Reading} {length : Nat}

theorem wellFormedQuoted_of_move {keyword : Text} {spaced : Bool}
    (h : (quoted keyword spaced).move text = .take reading length) :
    WellFormedQuoted reading.value := by
  have hform := (quoted_reads keyword spaced).form_of_eq_some (Pattern.move_eq_take_iff.mp h).1
  exact {
    ne_nil := hform.value_ne_nil
    double_quote := fun hmem => absurd (hform.value _ hmem) (by decide)
    single_quote := fun hmem => absurd (hform.value _ hmem) (by decide) }

theorem wellFormedWord_of_move (h : Pattern.move tailwind text = .take reading length) :
    WellFormedWord reading.value := by
  have hform := tailwind_reads.form_of_eq_some (Pattern.move_eq_take_iff.mp h).1
  exact {
    ne_nil := hform.value_ne_nil
    word := fun c hc => by simpa [isWordChar] using hform.value c hc }

end Directive

/-! ### The records of a text -/

theorem Adjacency.normalize_of_attached {adjacency : Adjacency} {before entry : Text}
    {entries : List Text} (h : adjacency.attached before = some entries) (hentry : entry ∈ entries) :
    Comment.normalize entry = entry := by
  obtain ⟨body, rfl, -⟩ := exists_body_of_attached h hentry
  exact Comment.normalize_normalize body

namespace Record

variable {α β : Type} {content : β → Prop} {records : List (Record β)}

theorem wellFormed_of_mem {move : Text → Move α} {f : α → β} {adjacency : Adjacency}
    (h : ∀ {text found length}, move text = .take found length → content (f found)) (text : Text) :
    ∀ record ∈ (scan move text).map fun site => (site.map f).record adjacency,
      record.WellFormed content := by
  refine List.forall_mem_map.mpr fun site hsite => ?_
  obtain ⟨passed, ahead, length, -, -, hmove⟩ := mem_scan hsite
  exact {
    comment_ne_nil := Adjacency.attached_ne_some_nil _ _
    comment := fun _ hentries _ => Adjacency.normalize_of_attached hentries
    content := h hmove }

theorem wellFormedKind_present (h : ∀ record ∈ records, record.WellFormed content) :
    WellFormedKind content (present records) where
  ne_nil := present_ne_some_nil records
  record list hlist record hrecord := by
    rw [← getD_present records, hlist] at h
    exact h record hrecord

end Record

theorem Document.wellFormed_parseAt (cap : Option Nat) (depth : Nat) (text : Text) :
    (parseAt cap depth text).sheet.WellFormed := by
  rw [sheet_parseAt]
  exact {
    charset := Record.wellFormedKind_present
      (Record.wellFormed_of_mem Directive.wellFormedQuoted_of_move text)
    imports := Record.wellFormedKind_present
      (Record.wellFormed_of_mem Directive.wellFormedQuoted_of_move text)
    tailwind := Record.wellFormedKind_present
      (Record.wellFormed_of_mem Directive.wellFormedWord_of_move text)
    config := fun record hrecord =>
      Record.wellFormed_of_mem Directive.wellFormedQuoted_of_move text record
        (List.mem_of_mem_head? hrecord)
    keyframes := Record.wellFormedKind_present
      (Record.wellFormed_of_mem Keyframes.wellFormed_of_move text)
    media := by
      rw [MediaBlock.records, List.map_map]
      exact Record.wellFormedKind_present
        (Record.wellFormed_of_mem
          (fun hmove => (MediaBlock.wellFormed_of_move hmove).expand _) text)
    styles := Record.wellFormedKind_present
      (Record.wellFormed_of_mem StyleRule.wellFormed_of_move text) }

/-- **Well-formedness.** Whatever document a parsed document holds, at whatever depth, its records
are well-formed. -/
theorem Config.wellFormed_of_holds (config : Config) (source : Text) {depth : Nat}
    {inner : Document} (h : (config.parse source).Holds depth inner) : inner.sheet.WellFormed := by
  obtain ⟨text, -, rfl⟩ := h.exists_text
  exact Document.wellFormed_parseAt config.maxNesting depth text

/-- A media block nested in another one, with a comment, a directive and keyframes in it. -/
def crowded : Text :=
  "@media a\x7b@media b\x7b/*c*/@import 'd';@keyframes e\x7bfrom\x7bf:g;\x7d\x7d\x7d\x7d".toList

def crowdedKeyframes : Document :=
  ⟨{ keyframes := some [⟨none, 1, ⟨"e".toList,
    [⟨"from".toList, [⟨"f".toList, "g".toList⟩]⟩]⟩⟩] }⟩

def crowdedMedia : Document :=
  ⟨{ crowdedKeyframes.sheet with
    imports := some [⟨some ["c".toList], 1, "d".toList⟩]
    media := some [.ofMedia "b".toList [.atRule crowdedKeyframes]] }⟩

theorem parse_crowded : ({} : Config).parse crowded =
    ⟨{ crowdedMedia.sheet with media := some [.ofMedia "a".toList [.atRule crowdedMedia]] }⟩ :=
  rfl

theorem Config.wellFormed_crowded :
    (({} : Config).parse crowded).Holds 1 crowdedMedia ∧ crowdedMedia.sheet.WellFormed := by
  have hrecord : Record.ofMedia "a".toList [.atRule crowdedMedia] ∈
      (({} : Config).parse crowded).sheet.media.getD [] := by
    rw [parse_crowded]
    exact List.mem_cons_self
  have hholds : (({} : Config).parse crowded).Holds 1 crowdedMedia :=
    .atRule .whole hrecord List.mem_cons_self
  exact ⟨hholds, wellFormed_of_holds {} crowded hholds⟩

end Stylesheet
