import Mathlib.Data.List.Basic
import Stylesheet.Proofs.ElementReading
import Stylesheet.Proofs.SheetKinds

/-!
# Reading written sheets

The text of a sheet is one listing of records for each kind. The scan for a kind takes the records of
its own listing with their comments and passes over the listings of the other kinds.
-/

namespace Stylesheet

/-- A record as it is written, followed by line feeds. -/
def Record.written {α : Type} (write : α → Text) (feeds : Nat) (record : Record α) : Text :=
  renderComments record.comment ++ write record.content ++ List.replicate feeds '\n'

/-- A text of records, each followed by as many line feeds, and some more at its end. -/
def Listed {α : Type} (write : α → Text) (records : List (Record α)) (text : Text) : Prop :=
  ∃ feeds tail, text = records.flatMap (Record.written write feeds) ++ List.replicate tail '\n'

namespace Listed

variable {α β γ : Type} {write core : α → Text} {records : List (Record α)} {text : Text}

theorem of_map (h : Listed id (records.map (Record.map write)) text) : Listed write records text := by
  obtain ⟨feeds, tail, htext⟩ := h
  refine ⟨feeds, tail, ?_⟩
  rw [htext, List.flatMap_map]
  rfl

theorem of_flatMap (feeds : Nat)
    (h : ∀ content, write content = core content ++ List.replicate feeds '\n')
    (records : List (Record α)) : Listed id (records.map (Record.map core))
      (records.flatMap (Record.render write) ++ ['\n']) := by
  have hrecord : Record.render write = Record.written core feeds := by
    funext record
    rw [Record.render, Record.written, h, List.append_assoc]
  refine ⟨feeds, 1, ?_⟩
  rw [hrecord, List.flatMap_map]
  rfl

theorem of_unlines (records : List (Record α)) : Listed id (records.map (Record.map core))
    (Text.unlines (records.map (Record.render core)) ++ ['\n']) := by
  cases records with
  | nil => exact ⟨0, 1, rfl⟩
  | cons record records =>
      refine ⟨1, 0, ?_⟩
      have hne : (record :: records).map (Record.render core) ≠ [] := List.cons_ne_nil _ _
      rw [Text.unlines_append hne, List.flatMap_map, List.flatMap_map]
      exact (List.append_nil _).symm

end Listed

/-- The records of a kind, each with its written element for its content. -/
def Sheet.cores (sheet : Sheet Text) : Kind → List (Record Text)
  | .charset => (sheet.charset.getD []).map
      (.map (Directive.renderQuoted ('@' :: "charset".toList) '"'))
  | .imports => (sheet.imports.getD []).map
      (.map (Directive.renderQuoted ('@' :: "import".toList) '\''))
  | .tailwind => (sheet.tailwind.getD []).map (.map Directive.renderTailwind)
  | .config => sheet.config.toList.map
      (.map (Directive.renderQuoted ('@' :: "config".toList) '\''))
  | .keyframes => (sheet.keyframes.getD []).map (.map Keyframes.core)
  | .media => (sheet.media.getD []).map (.map MediaBlock.core)
  | .styles => (sheet.styles.getD []).map (.map (Rule.block 1 []))

theorem Sheet.listed_renderKind (sheet : Sheet Text) (kind : Kind) :
    Listed id (sheet.cores kind) (sheet.renderKind kind ++ ['\n']) := by
  cases kind with
  | charset => exact Listed.of_flatMap 1 (fun value => rfl) (sheet.charset.getD [])
  | imports => exact Listed.of_unlines (sheet.imports.getD [])
  | tailwind => exact Listed.of_unlines (sheet.tailwind.getD [])
  | config =>
      have helim : sheet.config.elim [] (Record.render Directive.renderConfig) =
          sheet.config.toList.flatMap (Record.render Directive.renderConfig) := by
        cases sheet.config <;> simp
      have hfeeds : ∀ value, Directive.renderConfig value =
          Directive.renderConfig value ++ List.replicate 0 '\n' := fun value =>
        (List.append_nil _).symm
      rw [renderKind, helim]
      exact Listed.of_flatMap 0 hfeeds sheet.config.toList
  | keyframes => exact Listed.of_flatMap 1 Keyframes.render_eq (sheet.keyframes.getD [])
  | media => exact Listed.of_flatMap 1 MediaBlock.render_eq (sheet.media.getD [])
  | styles => exact Listed.of_flatMap 2 Rule.render_eq (sheet.styles.getD [])

section Walks

variable {α β γ : Type} {move : Text → Move α} {adjacency : Adjacency} {view : Site α → β}

/-- A place behind the comments that are attached to it. -/
def Adjacency.Follows (adjacency : Adjacency) (comment : Option (List Text)) (before : Text) : Prop :=
  adjacency.attached before = comment

theorem Skips.walks_renderComments (h : Skips move) {comment : Option (List Text)}
    (hne : comment ≠ some []) (hentries : ∀ entries ∈ comment, ∀ entry ∈ entries,
      Comment.Canonical entry) :
    Walks move view adjacency.Bare (renderComments comment) [] (adjacency.Follows comment) := by
  have hpass : Passes move (renderComments comment) := by
    rw [renderComments_eq]
    apply Passes.flatMap
    intro entry hentry
    cases comment with
    | none => exact absurd hentry List.not_mem_nil
    | some entries => exact h.comments entry (hentries entries rfl entry hentry)
  apply hpass.walks
  intro before hbefore
  exact Adjacency.attached_renderComments hne hentries hbefore

theorem Skips.walks_feeds (h : Skips move) (count : Nat) :
    Walks move view adjacency.Bare (List.replicate count '\n') [] adjacency.Bare := by
  have hpass : Passes move (List.replicate count '\n') := by
    induction count with
    | zero => exact .nil move
    | succ count ih => exact h.feed.append ih
  apply hpass.walks
  intro before hbefore
  rw [List.reverse_replicate]
  exact hbefore.feeds count

theorem Listed.walks {write : γ → Text} {records : List (Record γ)} {text : Text}
    (h : Listed write records text) (hskips : Skips move) {content : γ → Prop}
    (hrecords : ∀ record ∈ records, record.Canonical content) {value : Record γ → List β}
    (hcore : ∀ record ∈ records, Walks move view (adjacency.Follows record.comment)
      (write record.content) (value record) adjacency.Bare) :
    Walks move view adjacency.Bare text (records.flatMap value) adjacency.Bare := by
  obtain ⟨feeds, tail, rfl⟩ := h
  have hlisting : Walks move view adjacency.Bare (records.flatMap (Record.written write feeds))
      (records.flatMap value) adjacency.Bare := by
    apply Walks.flatMap
    intro record hmem
    have hcanonical := hrecords record hmem
    have hcomments : Walks move view adjacency.Bare (renderComments record.comment) []
        (adjacency.Follows record.comment) :=
      hskips.walks_renderComments hcanonical.comment_ne_nil hcanonical.comment
    have hrecord := (hcomments.append (hcore record hmem)).append (hskips.walks_feeds feeds)
    rwa [List.nil_append, List.append_nil] at hrecord
  have hlast := hlisting.append (hskips.walks_feeds tail)
  rwa [List.append_nil] at hlast

end Walks

namespace Record

variable {α β : Type} {content : α → Prop} {other : β → Prop}

theorem Canonical.map {record : Record α} (h : record.Canonical content) {f : α → β}
    (himp : ∀ value, content value → other (f value)) : (record.map f).Canonical other where
  comment_ne_nil := h.comment_ne_nil
  comment := h.comment
  content := himp record.content h.content

theorem CanonicalKind.getD {records : Option (List (Record α))} (h : CanonicalKind content records) :
    ∀ record ∈ records.getD [], record.Canonical content := by
  cases records with
  | none => exact List.forall_mem_nil _
  | some records => exact h.record records rfl

end Record

namespace Sheet

variable {sheet : Sheet Text}

theorem Canonical.cores (h : sheet.Canonical MediaRule.Nestable) (kind : Kind) :
    ∀ record ∈ sheet.cores kind, record.Canonical kind.Core := by
  have hmap : ∀ {γ : Type} {content : γ → Prop} {records : List (Record γ)} {write : γ → Text},
      (∀ record ∈ records, record.Canonical content) →
      (∀ value, content value → kind.Core (write value)) →
      ∀ record ∈ records.map (Record.map write), record.Canonical kind.Core :=
    fun hrecords hcore => List.forall_mem_map.mpr fun record hmem => (hrecords record hmem).map hcore
  cases kind with
  | charset => exact hmap h.charset.getD fun value hvalue => hvalue.core_render rfl rfl
  | imports => exact hmap h.imports.getD fun value hvalue => hvalue.core_render rfl rfl
  | tailwind => exact hmap h.tailwind.getD fun value hvalue => hvalue.core_render
  | config =>
      have hconfig : ∀ record ∈ sheet.config.toList,
          record.Canonical Directive.CanonicalQuoted := fun record hmem =>
        h.config record (Option.mem_toList.mp hmem)
      exact hmap hconfig fun value hvalue => hvalue.core_render rfl rfl
  | keyframes => exact hmap h.keyframes.getD fun keyframes hkeyframes => hkeyframes.core
  | media => exact hmap h.media.getD fun block hblock => hblock.core
  | styles => exact hmap h.styles.getD fun rule hrule => hrule.core

variable {α β γ : Type} {move : Text → Move α} {adjacency : Adjacency}

/-- A scan for one kind, which passes over the elements of all others. -/
structure Passing {α : Type} (kind : Kind) (move : Text → Move α) : Prop where
  skips : Skips move
  others : ∀ other, other ≠ kind → ∀ core, other.Core core → Passes move core

theorem passing_of_seeks {kind : Kind} {name : Text} (h : Seeks name move)
    (hname : kind.name? = some name) : Passing kind move where
  skips := h.skips
  others _ hne _ hcore := h.passes (hcore.lacks kind name hne.symm hname)

theorem passing_styles : Passing .styles StyleRule.move where
  skips := StyleRule.skips
  others _ hne _ hcore := hcore.passes hne

/-- A find as a record that leaves open where it stands. -/
def found (adjacency : Adjacency) (f : α → β) (site : Site α) : Record β :=
  ((site.map f).record adjacency).unlined

/-- Listed records are found one after the other, each with the comments before it. -/
theorem walks_found {kind : Kind} {records : List (Record γ)} {write : γ → Text} {text : Text}
    (hlisted : Listed write records text) (hskips : Skips move) {content : γ → Prop}
    (hrecords : ∀ record ∈ records, record.Canonical content)
    (hcores : ∀ record ∈ records, kind.Core (write record.content)) {f : α → β} {value : γ → β}
    (htake : Takes move f write value content) :
    Walks move (found adjacency f) adjacency.Bare text
      (records.map fun record => (record.map value).unlined) adjacency.Bare := by
  have hwalk : Walks move (found adjacency f) adjacency.Bare text
      (records.flatMap fun record => [(record.map value).unlined]) adjacency.Bare := by
    apply hlisted.walks hskips hrecords
    intro record hmem
    have hcore := hcores record hmem
    apply Walks.take hcore.ne_nil
    · intro rest
      obtain ⟨element, hmove, hvalue⟩ := htake record.content (hrecords record hmem).content rest
      refine ⟨element, hmove, fun before hbefore => ?_⟩
      change Record.mk (adjacency.attached before) 0 (f element) = _
      rw [hbefore, hvalue]
      rfl
    · exact fun before _ => hcore.bare adjacency before
  rwa [← List.map_eq_flatMap] at hwalk

theorem Canonical.walks_other (h : sheet.Canonical MediaRule.Nestable) {kind other : Kind}
    (hmove : Passing kind move) (hne : other ≠ kind) (view : Site α → β) :
    Walks move view adjacency.Bare (sheet.renderKind other ++ ['\n']) [] adjacency.Bare := by
  have hwalk : Walks move view adjacency.Bare (sheet.renderKind other ++ ['\n'])
      ((sheet.cores other).flatMap fun _ => []) adjacency.Bare := by
    apply (sheet.listed_renderKind other).walks hmove.skips (h.cores other)
    intro record hmem
    have hcore := (h.cores other record hmem).content
    exact (hmove.others other hne _ hcore).walks fun before _ => hcore.bare adjacency before
  have hnone : (sheet.cores other).flatMap (fun _ => ([] : List β)) = [] :=
    List.flatMap_eq_nil_iff.mpr fun _ _ => rfl
  rwa [hnone] at hwalk

theorem Canonical.walks_own (h : sheet.Canonical MediaRule.Nestable) {kind : Kind}
    {records : List (Record γ)} {write : γ → Text}
    (hcores : sheet.cores kind = records.map (.map write)) {content : γ → Prop}
    (hrecords : ∀ record ∈ records, record.Canonical content) (hmove : Passing kind move) {f : α → β}
    {value : γ → β} (htake : Takes move f write value content) :
    Walks move (found adjacency f) adjacency.Bare (sheet.renderKind kind ++ ['\n'])
      (records.map fun record => (record.map value).unlined) adjacency.Bare := by
  have hlisted := sheet.listed_renderKind kind
  rw [hcores] at hlisted
  have hcore : ∀ record ∈ records, kind.Core (write record.content) := by
    intro record hmem
    have hmapped : record.map write ∈ sheet.cores kind := by
      rw [hcores]
      exact List.mem_map_of_mem hmem
    exact (h.cores kind _ hmapped).content
  exact walks_found hlisted.of_map hmove.skips hrecords hcore htake

/-- The scan for a kind finds the records of the kind in the text of the whole sheet. -/
theorem Canonical.scan_render (h : sheet.Canonical MediaRule.Nestable) {kind : Kind}
    {records : List (Record γ)} {write : γ → Text}
    (hcores : sheet.cores kind = records.map (.map write)) {content : γ → Prop}
    (hrecords : ∀ record ∈ records, record.Canonical content) (hmove : Passing kind move) {f : α → β}
    {value : γ → β} (htake : Takes move f write value content) :
    (scan move sheet.render).map (found adjacency f) =
      records.map fun record => (record.map value).unlined := by
  let finds := records.map fun record => (record.map value).unlined
  have hkinds : Walks move (found adjacency f) adjacency.Bare sheet.render
      (Kind.all.flatMap fun other => if other = kind then finds else []) adjacency.Bare := by
    apply Walks.flatMap
    intro other _
    by_cases hother : other = kind
    · subst hother
      rw [if_pos rfl]
      exact h.walks_own hcores hrecords hmove htake
    · rw [if_neg hother]
      exact h.walks_other hmove hother _
  have hfinds : (Kind.all.flatMap fun other => if other = kind then finds else []) = finds := by
    cases kind <;> simp [Kind.all]
  rw [hfinds] at hkinds
  exact hkinds.scan_eq (Adjacency.bare_nil adjacency)

section Kinds

variable (h : sheet.Canonical MediaRule.Nestable)

include h

theorem Canonical.directives_render (kind : Kind) {pattern : Pattern} {name : Text}
    (hpattern : kind.pattern? = some pattern) (hname : kind.name? = some name)
    {records : List (Record Text)} {write : Text → Text}
    (hcores : sheet.cores kind = records.map (.map write)) {content : Text → Prop}
    (hrecords : ∀ record ∈ records, record.Canonical content)
    (htake : Takes pattern.move Reading.value write id content) :
    (Directive.records pattern sheet.render).map Record.unlined = records.map Record.unlined := by
  have hseeks : Seeks name pattern.move := (kind.pattern?_names hpattern hname).seeks_move
  rw [Directive.records, List.map_map]
  exact h.scan_render hcores hrecords (passing_of_seeks hseeks hname) htake

theorem Canonical.keyframes_render :
    (Keyframes.records sheet.render).map Record.unlined =
      (sheet.keyframes.getD []).map Record.unlined := by
  have hnames : Keyframes.header.Names "keyframes".toList := Kind.keyframes.pattern?_names rfl rfl
  have hpassing : Passing .keyframes (Block.move Keyframes.header) :=
    passing_of_seeks hnames.seeks_block rfl
  rw [Keyframes.records, List.map_map]
  exact h.scan_render rfl h.keyframes.getD hpassing Keyframes.takes_core

theorem Canonical.media_render :
    (MediaBlock.records sheet.render).map Record.unlined =
      (sheet.media.getD []).map fun record => (record.map (MediaBlock.map Text.trim)).unlined := by
  have hnames : MediaBlock.header.Names "media".toList := Kind.media.pattern?_names rfl rfl
  have hpassing : Passing .media (Block.move MediaBlock.header) :=
    passing_of_seeks hnames.seeks_block rfl
  rw [MediaBlock.records, List.map_map]
  exact h.scan_render rfl h.media.getD hpassing MediaBlock.takes_core

theorem Canonical.styles_render :
    (StyleRule.records sheet.render).map Record.unlined =
      (sheet.styles.getD []).map Record.unlined := by
  rw [StyleRule.records, List.map_map]
  exact h.scan_render rfl h.styles.getD passing_styles Rule.takes_block

end Kinds

theorem present_unlined {records : List (Record α)} {kind : Option (List (Record α))}
    (h : records.map Record.unlined = (kind.getD []).map Record.unlined) (hne : kind ≠ some []) :
    (present records).map (List.map Record.unlined) = kind.map (List.map Record.unlined) := by
  rw [← present_map, h, present_map, present_getD hne]

/-- A canonical sheet is read as it was written, up to the blanks around its nested at-rules. -/
theorem Canonical.readKinds_render (h : sheet.Canonical MediaRule.Nestable) :
    (readKinds Kind.all sheet.render).unlined = (sheet.map Text.trim).unlined := by
  have hcharset : (Directive.records Directive.charset sheet.render).map Record.unlined =
      (sheet.charset.getD []).map Record.unlined :=
    h.directives_render .charset rfl rfl rfl h.charset.getD (Directive.takes_quoted _ true '"' rfl)
  have himports : (Directive.records Directive.imports sheet.render).map Record.unlined =
      (sheet.imports.getD []).map Record.unlined :=
    h.directives_render .imports rfl rfl rfl h.imports.getD (Directive.takes_quoted _ false '\'' rfl)
  have htailwind : (Directive.records Directive.tailwind sheet.render).map Record.unlined =
      (sheet.tailwind.getD []).map Record.unlined :=
    h.directives_render .tailwind rfl rfl rfl h.tailwind.getD Directive.takes_tailwind
  have hconfig : (Directive.records Directive.config sheet.render).map Record.unlined =
      sheet.config.toList.map Record.unlined :=
    h.directives_render .config rfl rfl rfl
      (fun record hmem => h.config record (Option.mem_toList.mp hmem))
      (Directive.takes_quoted _ false '\'' rfl)
  have hmedia : (MediaBlock.records sheet.render).map Record.unlined =
      ((sheet.map Text.trim).media.getD []).map Record.unlined := by
    rw [h.media_render, Sheet.map, mapMedia]
    cases sheet.media with
    | none => rfl
    | some records =>
        change _ = (records.map (Record.map (MediaBlock.map Text.trim))).map Record.unlined
        rw [List.map_map]
        rfl
  have hne : (sheet.map Text.trim).media ≠ some [] := map_ne_some_nil _ h.media.ne_nil
  have hfirst : (Directive.records Directive.config sheet.render).head?.map Record.unlined =
      sheet.config.map Record.unlined := by
    rw [← List.head?_map, hconfig, List.head?_map]
    cases sheet.config <;> rfl
  rw [readKinds_all, unlined, present_unlined hcharset h.charset.ne_nil,
    present_unlined himports h.imports.ne_nil, present_unlined htailwind h.tailwind.ne_nil, hfirst,
    present_unlined h.keyframes_render h.keyframes.ne_nil, present_unlined hmedia hne,
    present_unlined h.styles_render h.styles.ne_nil]
  rfl

end Sheet

/-! A kind is absent from a text in which its name follows no at sign. -/

section Absent

variable {text : Text}

theorem Directive.records_eq_nil (kind : Kind) {pattern : Pattern} {name : Text}
    (hpattern : kind.pattern? = some pattern) (hname : kind.name? = some name)
    (h : Lacks name text) : Directive.records pattern text = [] := by
  have hseeks : Seeks name pattern.move := (kind.pattern?_names hpattern hname).seeks_move
  rw [Directive.records, Pattern.occurrences, (hseeks.passes h).scan_eq_nil]
  rfl

theorem Keyframes.records_eq_nil (h : Lacks "keyframes".toList text) :
    Keyframes.records text = [] := by
  have hnames : header.Names "keyframes".toList := Kind.keyframes.pattern?_names rfl rfl
  rw [records, Block.sites, (hnames.seeks_block.passes h).scan_eq_nil]
  rfl

theorem MediaBlock.records_eq_nil (h : Lacks "media".toList text) :
    MediaBlock.records text = [] := by
  have hnames : header.Names "media".toList := Kind.media.pattern?_names rfl rfl
  rw [records, Block.sites, (hnames.seeks_block.passes h).scan_eq_nil]
  rfl

/-- Without an at sign there are only style rules. -/
theorem Sheet.readKinds_of_not_mem (h : '@' ∉ text) :
    readKinds Kind.all text = { styles := present (StyleRule.records text) } := by
  have hlacks : ∀ name, Lacks name text := fun name => .of_not_mem h
  rw [readKinds_all, Directive.records_eq_nil .charset rfl rfl (hlacks _),
    Directive.records_eq_nil .imports rfl rfl (hlacks _),
    Directive.records_eq_nil .tailwind rfl rfl (hlacks _),
    Directive.records_eq_nil .config rfl rfl (hlacks _),
    Keyframes.records_eq_nil (hlacks _), MediaBlock.records_eq_nil (hlacks _)]
  rfl

end Absent

/-- A media block that stands alone is the only thing found in its text. -/
theorem MediaBlock.readKinds_core {block : MediaBlock Text}
    (h : block.Canonical MediaRule.Nestable) : Sheet.readKinds Kind.all block.core =
      { media := some [⟨none, 1, block.map Text.trim⟩] } := by
  have hmedia : records block.core = [⟨none, 1, block.map Text.trim⟩] := by
    obtain ⟨found, hmove, hfound⟩ := takes_core block h []
    have hscan : scanFrom (Block.move header) 0 [] (block.core ++ []) =
        ⟨[], found⟩ :: scanFrom (Block.move header) 0 (block.core.reverse ++ []) [] :=
      scanFrom_take h.core.ne_nil hmove
    rw [List.append_nil] at hscan
    rw [records, Block.sites, scan, hscan, ← hfound]
    rfl
  have hstyles : StyleRule.records block.core = [] := by
    rw [StyleRule.records, (h.core.passes (by decide)).scan_eq_nil]
    rfl
  rw [Sheet.readKinds_all,
    Directive.records_eq_nil .charset rfl rfl (h.core.lacks .charset _ (by decide) rfl),
    Directive.records_eq_nil .imports rfl rfl (h.core.lacks .imports _ (by decide) rfl),
    Directive.records_eq_nil .tailwind rfl rfl (h.core.lacks .tailwind _ (by decide) rfl),
    Directive.records_eq_nil .config rfl rfl (h.core.lacks .config _ (by decide) rfl),
    Keyframes.records_eq_nil (h.core.lacks .keyframes _ (by decide) rfl), hmedia, hstyles]
  rfl

end Stylesheet
