import Stylesheet.Parse
import Stylesheet.Proofs.CheckedBraces
import Stylesheet.Proofs.CheckedComments
import Stylesheet.Proofs.DirectiveForms
import Stylesheet.Proofs.HeaderForms

/-!
# Checked scans with patterns

The scans for directives and for blocks as loops over byte offsets. Each iteration searches for the
next reading of a pattern and cuts what it needs out of the text by the offsets of that reading.
-/

namespace Stylesheet

/-- What a pattern reads ends in a mark. -/
def Pattern.Marked (mark : Char) (pattern : Pattern) : Prop :=
  ∀ text reading, pattern text = some reading →
    text = reading.text ++ reading.rest ∧ ∃ gap, reading.tail = gap ++ [mark]

section Marked

variable {mark : Char} {pattern : Pattern} {form : Text → Text → Text → Prop} {name : Text}
  {spaced : Bool} {accepts : Char → Bool}

theorem Pattern.Reads.marked (hreads : pattern.Reads form)
    (h : ∀ {lead value tail}, form lead value tail → ∃ gap, tail = gap ++ [mark]) :
    pattern.Marked mark :=
  fun _ _ hreading => ⟨hreads.text_eq hreading, h (hreads.form_of_eq_some hreading)⟩

theorem Directive.marked_quoted (keyword : Text) (spaced : Bool) :
    (quoted keyword spaced).Marked ';' := by
  refine (quoted_reads keyword spaced).marked fun hform => ?_
  obtain ⟨closing, gap, htail, -⟩ := hform.tail
  exact ⟨closing :: gap, htail⟩

theorem Pattern.marked_word (hreads : pattern.Reads (WordForm name spaced accepts mark)) :
    pattern.Marked mark := by
  refine hreads.marked fun hform => ?_
  obtain ⟨gap, htail, -⟩ := hform.tail
  exact ⟨gap, htail⟩

theorem MediaBlock.marked_header : header.Marked '{' :=
  header_reads.marked fun hform => ⟨[], hform.tail_eq⟩

theorem MediaBlock.marked_innerHeader : innerHeader.Marked '{' :=
  innerHeader_reads.marked fun hform => ⟨[], hform.tail_eq⟩

theorem Pattern.Marked.text_ne_nil (hmarked : pattern.Marked mark) {text : Text}
    {reading : Reading} (hreading : pattern text = some reading) : reading.text ≠ [] := by
  obtain ⟨-, gap, htail⟩ := hmarked text reading hreading
  rw [Reading.text, htail, ← List.append_assoc]
  exact List.concat_ne_nil _ _

theorem Pattern.Marked.move_eq_take (hmarked : pattern.Marked mark) {text : Text}
    {reading : Reading} (hreading : pattern text = some reading) :
    pattern.move (reading.text ++ reading.rest) = .take reading reading.text.length := by
  rw [← (hmarked text reading hreading).1, move, hreading]

end Marked

namespace Checked

variable {source front ahead : Text} {pattern : Pattern} {mark : Char} {reading : Reading}

/-! ### Searching -/

/-- The offsets of what a pattern reads first at or behind an offset. -/
def searchAt (pattern : Pattern) (source : Text) (cursor : Nat) : Checked (Option Span) := do
  let (front, ahead) ← cutAt source cursor
  return (scanFrom pattern.move 0 front.reverse ahead).head?.map Site.span

/-- A reading behind a front part of a text, and its offsets in the text. -/
structure Found (source front : Text) (reading : Reading) (span : Span) : Prop where
  source_eq : source = front ++ (reading.text ++ reading.rest)
  start_eq : span.start = front.byteSize
  stop_eq : span.stop = Text.byteSize (front ++ reading.text)
  whole : slice source span.start span.stop = .ok reading.text
  value : slice source span.valueStart span.valueStop = .ok reading.value

theorem found_span (hsource : source = front ++ (reading.text ++ reading.rest)) :
    Found source front reading (Site.span ⟨front.reverse, reading⟩) := by
  have hstart : Text.byteSize front.reverse = front.byteSize := Text.byteSize_reverse front
  have hstop : front.byteSize + reading.lead.byteSize + reading.value.byteSize +
      reading.tail.byteSize = front.byteSize + reading.text.byteSize := by
    rw [Reading.text, Text.byteSize_append, Text.byteSize_append]
    omega
  have hvalue : source =
      (front ++ reading.lead) ++ (reading.value ++ (reading.tail ++ reading.rest)) := by
    rw [hsource, Reading.text]
    simp only [List.append_assoc]
  simp only [Site.span, Site.offset, hstart, hstop]
  refine ⟨hsource, rfl, (Text.byteSize_append _ _).symm, ?_, ?_⟩
  · exact slice_eq_ok_iff.mpr ⟨front, reading.rest, hsource, rfl, rfl⟩
  · refine slice_eq_ok_iff.mpr ⟨_, _, hvalue, ?_, ?_⟩
    · exact (Text.byteSize_append _ _).symm
    · rw [Text.byteSize_append]

/-- A scan that moves on by one character where a pattern does not read passes over all that lies
before the first reading. -/
theorem exists_search {α : Type} {move : Text → Move α}
    (hmove : ∀ text, pattern text = none → move text = .pass 1) (before ahead : Text) :
    (scanFrom pattern.move 0 before ahead = [] ∧ scanFrom move 0 before ahead = []) ∨
      ∃ skipped rest reading, ahead = skipped ++ rest ∧ pattern rest = some reading ∧
        (scanFrom pattern.move 0 before ahead).head? =
          some ⟨skipped.reverse ++ before, reading⟩ ∧
        scanFrom move 0 before (skipped ++ rest) =
          scanFrom move 0 (skipped.reverse ++ before) rest := by
  induction ahead generalizing before with
  | nil => exact .inl ⟨rfl, rfl⟩
  | cons c ahead ih =>
      cases hread : pattern (c :: ahead) with
      | some reading =>
          refine .inr ⟨[], c :: ahead, reading, rfl, hread, ?_, rfl⟩
          rw [scanFrom, Pattern.move, hread]
          rfl
      | none =>
          have hnext : ∀ {β : Type} {move : Text → Move β}, move (c :: ahead) = .pass 1 →
              scanFrom move 0 before (c :: ahead) = scanFrom move 0 (c :: before) ahead := by
            intro β move hone
            rw [scanFrom, hone]
          rw [hnext (Pattern.move_eq_pass hread), hnext (hmove _ hread)]
          rcases ih (c :: before) with hnothing | ⟨skipped, rest, reading, rfl, hrest, hhead, hscan⟩
          · exact .inl hnothing
          · refine .inr ⟨c :: skipped, rest, reading, rfl, hrest, ?_, ?_⟩
            · rw [hhead, List.reverse_cons, List.append_assoc, List.singleton_append]
            · rw [List.cons_append, hnext (hmove _ hread), hscan, List.reverse_cons,
                List.append_assoc, List.singleton_append]

/-- A search finds nothing, and then a scan does not either, or it finds where the scan goes on. -/
theorem searchAt_cases {α : Type} {move : Text → Move α} (hmarked : pattern.Marked mark)
    (hmove : ∀ text, pattern text = none → move text = .pass 1) (hsource : source = front ++ ahead) :
    (searchAt pattern source front.byteSize = .ok none ∧
        scanFrom move 0 front.reverse ahead = []) ∨
      ∃ skipped rest reading span, ahead = skipped ++ rest ∧ pattern rest = some reading ∧
        searchAt pattern source front.byteSize = .ok (some span) ∧
        Found source (front ++ skipped) reading span ∧
        scanFrom move 0 front.reverse (skipped ++ rest) =
          scanFrom move 0 (front ++ skipped).reverse rest := by
  have hsearch : searchAt pattern source front.byteSize =
      .ok ((scanFrom pattern.move 0 front.reverse ahead).head?.map Site.span) := by
    rw [searchAt, cutAt_of_eq hsource rfl]
    rfl
  rw [hsearch]
  rcases exists_search hmove front.reverse ahead with
    ⟨hnothing, hscan⟩ | ⟨skipped, rest, reading, rfl, hrest, hhead, hscan⟩
  · rw [hnothing]
    exact .inl ⟨rfl, hscan⟩
  · rw [← List.reverse_append] at hhead hscan
    rw [hhead]
    refine .inr ⟨skipped, rest, reading, _, rfl, hrest, rfl, found_span ?_, hscan⟩
    rw [hsource, List.append_assoc, ← (hmarked rest reading hrest).1]

/-! ### Directives -/

def directiveAt (source : Text) (span : Span) : Checked (Record Text) := do
  recordAt source span.start .strict (← slice source span.valueStart span.valueStop)

def directiveStep (pattern : Pattern) (source : Text) (cursor : Nat) :
    Checked (Step (Record Text)) := do
  match ← searchAt pattern source cursor with
  | none => return .done
  | some span => return .found (← directiveAt source span) span.stop

/-- The directives of a text that a pattern reads, with the comments before them. -/
def directives (pattern : Pattern) (source : Text) : Checked (List (Record Text)) :=
  loop (directiveStep pattern source) (source.byteSize + 1) 0

def firstDirective (pattern : Pattern) (source : Text) : Checked (Option (Record Text)) := do
  match ← searchAt pattern source 0 with
  | none => return none
  | some span => return some (← directiveAt source span)

theorem directiveAt_eq {span : Span} (h : Found source front reading span) :
    directiveAt source span =
      .ok (((⟨front.reverse, reading⟩ : Site Reading).map Reading.value).record .strict) := by
  rw [directiveAt, h.value]
  exact recordAt_eq h.source_eq h.start_eq .strict reading.value

theorem directiveStep_follows (hmarked : pattern.Marked mark) (hsource : source = front ++ ahead) :
    ∃ made, directiveStep pattern source front.byteSize = .ok made ∧
      Follows pattern.move (fun site => (site.map Reading.value).record .strict) front ahead made := by
  rcases searchAt_cases hmarked (fun _ => Pattern.move_eq_pass) hsource with
    ⟨hsearch, hscan⟩ | ⟨skipped, rest, reading, span, rfl, hrest, hsearch, hfound, hscan⟩
  · rw [directiveStep, hsearch]
    exact ⟨.done, rfl, .done hscan⟩
  · rw [directiveStep, hsearch]
    simp only [bind, Except.bind, directiveAt_eq hfound]
    refine ⟨_, rfl, .behind hscan ?_⟩
    rw [(hmarked rest reading hrest).1]
    exact .of_take (hmarked.text_ne_nil hrest) hfound.stop_eq (hmarked.move_eq_take hrest)

theorem directives_eq (hmarked : pattern.Marked mark) (source : Text) :
    directives pattern source = .ok (Directive.records pattern source) :=
  loop_eq_scan fun _ _ => directiveStep_follows hmarked

theorem firstDirective_eq (hmarked : pattern.Marked mark) (source : Text) :
    firstDirective pattern source = .ok (Directive.records pattern source).head? := by
  have hsource : source = [] ++ source := rfl
  rw [Directive.records, Pattern.occurrences, scan]
  rcases searchAt_cases hmarked (fun _ => Pattern.move_eq_pass) hsource with
    ⟨hsearch, hscan⟩ | ⟨skipped, rest, reading, span, rfl, hrest, hsearch, hfound, hscan⟩
  · rw [Text.byteSize_nil] at hsearch
    rw [List.reverse_nil] at hscan
    rw [firstDirective, hsearch, hscan]
    rfl
  · have hfirst : (scanFrom pattern.move 0 [] (skipped ++ rest)).head? =
        some ⟨skipped.reverse, reading⟩ := by
      rw [List.reverse_nil] at hscan
      rw [hscan, (hmarked rest reading hrest).1,
        scanFrom_take (hmarked.text_ne_nil hrest) (hmarked.move_eq_take hrest)]
      rfl
    rw [Text.byteSize_nil] at hsearch
    rw [firstDirective, hsearch, List.head?_map, hfirst]
    simp only [bind, Except.bind, directiveAt_eq hfound]
    rfl

/-! ### Blocks -/

/-- Reads the next block, whose content is put together from the offsets of its header, of its
opening brace and of its closing brace. -/
def blockStep {β : Type} (header : Pattern) (source : Text)
    (read : Span → (opening close : Nat) → Checked β) (cursor : Nat) : Checked (Step β) := do
  match ← searchAt header source cursor with
  | none => return .done
  | some span =>
      let opening ← minus span.stop 1
      match ← closingBrace source opening with
      | none => return .done
      | some close => return .found (← read span opening close) (close + 1)

/-- The steps are read from behind the header to the closing brace. -/
def keyframesAt (source : Text) (span : Span) (_ close : Nat) : Checked (Record Keyframes) := do
  let name ← slice source span.valueStart span.valueStop
  let interior ← slice source span.stop close
  recordAt source span.start .loose ⟨name, Keyframes.stepsOf interior⟩

def keyframes (source : Text) : Checked (List (Record Keyframes)) :=
  loop (blockStep Keyframes.header source (keyframesAt source)) (source.byteSize + 1) 0

section Media

variable {δ : Type} (nested : Text → Checked (Option δ))

/-- A block in the interior of a media block, unless it has nothing before its brace. A nested
at-rule is handed on as its own text. -/
def innerAt (content : Text) (span : Span) (opening close : Nat) :
    Checked (Option (MediaRule δ)) := do
  let body ← slice content (opening + 1) close
  let selector ← slice content span.valueStart span.valueStop
  match selector.trim with
  | [] => return none
  | '@' :: _ =>
      let whole ← slice content span.start span.stop
      return (← nested (whole ++ body ++ ['}'])).map .atRule
  | selector => return some (.style ⟨selector, Declaration.split body⟩)

def rulesOf (content : Text) : Checked (List (MediaRule δ)) := do
  let rules ← loop (blockStep MediaBlock.innerHeader content (innerAt nested content))
    (content.byteSize + 1) 0
  return rules.filterMap id

def mediaAt (source : Text) (span : Span) (opening close : Nat) :
    Checked (Record (MediaBlock δ)) := do
  let query ← slice source span.valueStart span.valueStop
  let interior ← slice source (opening + 1) close
  let rules ← rulesOf nested interior
  recordAt source span.start .strict ⟨query.trim, rules⟩

def media (source : Text) : Checked (List (Record (MediaBlock δ))) :=
  loop (blockStep MediaBlock.header source (mediaAt nested source)) (source.byteSize + 1) 0

end Media

/-- A block behind a front part of a text, and its offsets in the text. -/
structure FoundBlock (source front : Text) (block : Block) (span : Span) (opening close : Nat) : Prop
    extends Found source front block.header span where
  opening_eq : opening + 1 = span.stop
  interior : slice source span.stop close = .ok block.interior
  length_le : block.text.length ≤ source.length

theorem FoundBlock.length_interior_lt {block : Block} {span : Span} {opening close : Nat}
    (h : FoundBlock source front block span opening close) :
    block.interior.length < source.length := by
  have hlength := h.length_le
  rw [Block.text, List.length_append, List.length_append, List.length_singleton] at hlength
  omega

/-- What is found behind the opening brace of a header is the interior of a block. -/
theorem Found.block {span : Span} {head interior more : Text} (h : Found source front reading span)
    (hstop : span.stop = head.byteSize + 1) (hopened : source = head ++ '{' :: reading.rest)
    (hinterior : interior? reading.rest = some (interior, more)) :
    FoundBlock source front ⟨reading, interior⟩ span head.byteSize
      (head.byteSize + Text.byteSize ('{' :: interior)) := by
  have hrest : reading.rest = interior ++ '}' :: more := interior?_eq_append hinterior
  rw [hrest] at hopened
  refine ⟨h, hstop.symm, ?_, ?_⟩
  · rw [hstop]
    exact slice_interior hopened rfl
  · rw [h.source_eq, hrest, Block.text]
    simp only [List.length_append, List.length_cons, List.length_nil]
    omega

/-- An iteration of a loop over blocks does what the scan does, if it reads a block as `view` sees
it. -/
theorem blockStep_follows {β : Type} {header : Pattern} {view : Site Block → β}
    {read : Span → (opening close : Nat) → Checked β} (hmarked : header.Marked '{')
    (hread : ∀ {front block span opening close}, FoundBlock source front block span opening close →
      read span opening close = .ok (view ⟨front.reverse, block⟩))
    (hsource : source = front ++ ahead) :
    ∃ made, blockStep header source read front.byteSize = .ok made ∧
      Follows (Block.move header) view front ahead made := by
  have hpass : ∀ text, header text = none → Block.move header text = .pass 1 := fun _ hnone =>
    Block.move_eq_pass_iff.mpr ⟨hnone, rfl⟩
  rcases searchAt_cases hmarked hpass hsource with
    ⟨hsearch, hscan⟩ | ⟨skipped, rest, reading, span, rfl, hrest, hsearch, hfound, hscan⟩
  · rw [blockStep, hsearch]
    exact ⟨.done, rfl, .done hscan⟩
  · obtain ⟨htext, gap, htail⟩ := hmarked rest reading hrest
    obtain ⟨head, hhead⟩ : ∃ head, front ++ skipped ++ reading.text = head ++ ['{'] := by
      refine ⟨front ++ skipped ++ (reading.lead ++ reading.value ++ gap), ?_⟩
      rw [Reading.text, htail]
      simp only [List.append_assoc]
    have hstop : span.stop = head.byteSize + 1 := by
      rw [hfound.stop_eq, hhead, Text.byteSize_append]
      rfl
    have hopened : source = head ++ '{' :: reading.rest := by
      rw [hfound.source_eq, ← List.append_assoc, hhead, List.append_assoc, List.singleton_append]
    have hopening : minus span.stop 1 = .ok head.byteSize := by
      rw [hstop, minus_of_le (Nat.le_add_left _ _), Nat.add_sub_cancel]
    rw [blockStep, hsearch]
    simp only [bind, Except.bind, hopening, closingBrace_brace hopened rfl]
    cases hinterior : interior? reading.rest with
    | none =>
        refine ⟨.done, rfl, .behind hscan (.of_stop fun _ => ?_)⟩
        rw [Block.move, hrest]
        simp only [hinterior]
    | some cut =>
        obtain ⟨interior, more⟩ := cut
        have hpiece : rest = (⟨reading, interior⟩ : Block).text ++ more := by
          rw [htext, interior?_eq_append hinterior, Block.text]
          simp only [List.append_assoc, List.singleton_append]
        have hmove : Block.move header rest =
            .take ⟨reading, interior⟩ (⟨reading, interior⟩ : Block).text.length :=
          Block.move_eq_take_iff.mpr ⟨hrest, ⟨more, hinterior⟩, rfl⟩
        simp only [Option.map_some, hread (hfound.block hstop hopened hinterior)]
        refine ⟨_, rfl, .behind hscan ?_⟩
        rw [hpiece] at hmove ⊢
        refine .of_take ?_ ?_ hmove
        · exact List.append_ne_nil_of_right_ne_nil _ (List.cons_ne_nil _ _)
        · rw [Block.text, ← List.append_assoc, ← List.append_assoc, hhead]
          simp only [Text.byteSize_append, Text.byteSize_opening, Text.byteSize_nil,
            Text.byteSize_closing]
          omega

theorem keyframes_eq (source : Text) : keyframes source = .ok (Keyframes.records source) := by
  have hmarked : Keyframes.header.Marked '{' := Pattern.marked_word Keyframes.header_reads
  have hread : ∀ {front block span opening close}, FoundBlock source front block span opening close →
      keyframesAt source span opening close =
        .ok (((⟨front.reverse, block⟩ : Site Block).map Keyframes.ofBlock).record .loose) := by
    intro front block span opening close hblock
    rw [keyframesAt, hblock.value, hblock.interior]
    exact recordAt_eq hblock.source_eq hblock.start_eq .loose (Keyframes.ofBlock block)
  exact loop_eq_scan fun _ _ => blockStep_follows hmarked hread

section Media

variable {δ : Type} {nested : Text → Checked (Option δ)} {expand : Text → Option δ}

theorem innerAt_eq {content : Text} {block : Block} {span : Span} {opening close : Nat}
    (hnested : nested block.text = .ok (expand block.text))
    (hblock : FoundBlock content front block span opening close) :
    innerAt nested content span opening close =
      .ok ((MediaBlock.ruleOf? block).bind (MediaRule.expand expand)) := by
  rw [innerAt, hblock.opening_eq, hblock.interior, hblock.value]
  simp only [bind, Except.bind, hblock.whole]
  cases hselector : block.header.value.trim with
  | nil =>
      have hrule : MediaBlock.ruleOf? block = none := by
        rw [MediaBlock.ruleOf?, hselector]
      rw [hrule]
      rfl
  | cons c selector =>
      by_cases hat : c = '@'
      · subst hat
        have hrule : MediaBlock.ruleOf? block = some (.atRule block.text) := by
          rw [MediaBlock.ruleOf?, hselector]
          rfl
        have hfragment : nested (block.header.text ++ block.interior ++ ['}']) =
            .ok (expand block.text) := hnested
        rw [hrule]
        simp only [hfragment]
        rfl
      · have hrule : MediaBlock.ruleOf? block =
            some (.style ⟨c :: selector, Declaration.split block.interior⟩) := by
          rw [MediaBlock.ruleOf?, hselector]
          split
          · next hnil => exact absurd hnil (List.cons_ne_nil _ _)
          · next hcons => exact absurd (List.cons.inj hcons).1 hat
          · rfl
        rw [hrule]
        split
        · next hnil => exact absurd hnil (List.cons_ne_nil _ _)
        · next hcons => exact absurd (List.cons.inj hcons).1 hat
        · rfl

theorem rulesOf_eq (content : Text)
    (hnested : ∀ fragment, fragment.length ≤ content.length →
      nested fragment = .ok (expand fragment)) :
    rulesOf nested content =
      .ok ((MediaBlock.rulesOf content).filterMap (MediaRule.expand expand)) := by
  have hloop : loop (blockStep MediaBlock.innerHeader content (innerAt nested content))
      (content.byteSize + 1) 0 = .ok ((scan (Block.move MediaBlock.innerHeader) content).map
        fun site => (MediaBlock.ruleOf? site.content).bind (MediaRule.expand expand)) := by
    refine loop_eq_scan fun _ _ => blockStep_follows MediaBlock.marked_innerHeader fun hblock => ?_
    exact innerAt_eq (hnested _ hblock.length_le) hblock
  rw [rulesOf, hloop, MediaBlock.rulesOf, scanContents]
  simp only [bind, Except.bind, pure, Except.pure, List.filterMap_map, List.filterMap_filterMap]
  rfl

/-- The media blocks are found with what `nested` makes of their nested at-rules, which are shorter
than the text. -/
theorem media_eq (source : Text)
    (hnested : ∀ fragment, fragment.length < source.length →
      nested fragment = .ok (expand fragment)) :
    media nested source =
      .ok ((MediaBlock.records source).map (Record.map (MediaBlock.expand expand))) := by
  have hloop : media nested source = .ok ((scan (Block.move MediaBlock.header) source).map
      fun site => ((site.map MediaBlock.ofBlock).record .strict).map (MediaBlock.expand expand)) := by
    refine loop_eq_scan fun _ _ => blockStep_follows MediaBlock.marked_header ?_
    intro front block span opening close hblock
    have hrules := rulesOf_eq block.interior fun fragment hfragment =>
      hnested fragment (Nat.lt_of_le_of_lt hfragment hblock.length_interior_lt)
    rw [mediaAt, hblock.value, hblock.opening_eq, hblock.interior]
    simp only [bind, Except.bind, hrules]
    exact recordAt_eq hblock.source_eq hblock.start_eq .strict
      (MediaBlock.expand expand (MediaBlock.ofBlock block))
  rw [hloop, MediaBlock.records, Block.sites, List.map_map]
  rfl

end Media

end Checked

end Stylesheet
