import Mathlib.Order.WellFounded
import Stylesheet.Config
import Stylesheet.Proofs.Occurrences
import Stylesheet.Proofs.ParseDepth

/-!
# Headers of keyframes

The search for keyframes goes on behind each block that it finds and ends at the first header whose
block stays open. So a header of the source has a record unless it begins inside of a block that has
one, or not before that first header.
-/

namespace Stylesheet

def ExactlyOne (first second third : Prop) : Prop :=
  (first ∧ ¬second ∧ ¬third) ∨ (¬first ∧ second ∧ ¬third) ∨ (¬first ∧ ¬second ∧ third)

theorem ExactlyOne.of_or {first second third : Prop} (h : first ∨ second ∨ third)
    (hfirst : first → ¬second) (hthird : third → ¬first ∧ ¬second) :
    ExactlyOne first second third := by
  unfold ExactlyOne
  tauto

/-- A character that a piece has only at its start stands next behind the piece. -/
theorem Text.exists_of_append_eq_append_cons {c : Char} {name behind front rest : Text}
    (hc : c ∉ name) (hfront : front ≠ []) (h : c :: name ++ behind = front ++ c :: rest) :
    ∃ between, front = c :: name ++ between ∧ behind = between ++ c :: rest := by
  rcases List.append_eq_append_iff.mp h with hbetween | ⟨cut, hcut, hmark⟩
  · exact hbetween
  · obtain ⟨d, front, rfl⟩ := List.exists_cons_of_ne_nil hfront
    cases cut with
    | nil => exact ⟨[], by rw [hcut, List.append_nil, List.append_nil], hmark.symm⟩
    | cons e cut =>
        obtain rfl : c = e := (List.cons.inj hmark).1
        rw [(List.cons.inj hcut).2] at hc
        exact absurd (List.mem_append_right front List.mem_cons_self) hc

namespace Site

/-- The header of a block as it stands in the source. -/
def header (block : Site Block) : Site Reading :=
  block.map Block.header

/-- The offset of the brace in which a header ends. -/
def brace (header : Site Reading) : Nat :=
  header.span.stop - 1

theorem span_stop (site : Site Reading) :
    site.span.stop = site.offset + site.content.text.byteSize := by
  rw [Reading.text, Text.byteSize_append, Text.byteSize_append, ← Nat.add_assoc, ← Nat.add_assoc]
  rfl

/-- The offset of the brace that ends a block. -/
def close (block : Site Block) : Nat :=
  block.offset + Text.byteSize (block.content.header.text ++ block.content.interior)

theorem offset_le_close (block : Site Block) : block.offset ≤ block.close :=
  Nat.le_add_right _ _

end Site

namespace Keyframes

/-- A block of a source: a header of it, and the text up to the brace that closes the header's. -/
structure Recorded (source : Text) (block : Site Block) : Prop where
  header : block.header ∈ Keyframes.header.occurrences source
  text : ∃ rest, source = block.before.reverse ++ (block.content.text ++ rest)
  close : closingBrace? source block.header.brace = some block.close

/-- The record of a block, with the line and the comments of the place where its header begins. -/
def recordAt (source : Text) (block : Site Block) : Record Keyframes :=
  ⟨attachedComments source block.offset .loose, source.lineNumber block.offset, ofBlock block.content⟩

/-- A header of a source that begins in none of some blocks, and whose own block never closes. -/
structure Unclosed (source : Text) (blocks : List (Site Block)) (header : Site Reading) : Prop where
  occurs : header ∈ Keyframes.header.occurrences source
  outside : ∀ block ∈ blocks, header.offset < block.offset ∨ block.close < header.offset
  unclosed : closingBrace? source header.brace = none

/-- The first of these headers. -/
def FirstUnclosed (source : Text) (blocks : List (Site Block)) (header : Site Reading) : Prop :=
  Unclosed source blocks header ∧ ∀ other, Unclosed source blocks other → header.offset ≤ other.offset

variable {source : Text} {blocks : List (Site Block)} {site : Site Reading} {block : Site Block}

theorem marked_header : header.Marked '{' :=
  Pattern.marked_word header_reads

/-- A header begins with its at sign, and no other header begins inside of it. -/
theorem exists_cons_of_header (text : Text) (reading : Reading) (h : header text = some reading) :
    ∃ rest, reading.text = '@' :: rest ∧ '@' ∉ rest :=
  (header_reads.form_of_eq_some h).exists_cons (by decide) (by decide) (by decide) (by decide)

theorem mem_occurrences_iff : site ∈ header.occurrences source ↔
    ∃ ahead, source = site.before.reverse ++ ahead ∧ header ahead = some site.content :=
  marked_header.mem_occurrences_iff exists_cons_of_header

theorem closingBrace?_header {ahead : Text} (hsource : source = site.before.reverse ++ ahead)
    (h : header ahead = some site.content) :
    closingBrace? source site.brace = (interior? site.content.rest).map fun (interior, _) =>
      site.offset + Text.byteSize (site.content.text ++ interior) := by
  obtain ⟨htext, gap, htail⟩ := marked_header ahead site.content h
  obtain ⟨name, hname⟩ : ∃ name, site.content.text = name ++ ['{'] :=
    ⟨site.content.lead ++ site.content.value ++ gap, by simp [Reading.text, htail]⟩
  have hbrace : site.brace = Text.byteSize (site.before.reverse ++ name) := by
    have hopening : Text.byteSize ['{'] = 1 := rfl
    rw [Site.brace, Site.span_stop, hname, Site.offset, Text.byteSize_append, Text.byteSize_append,
      Text.byteSize_reverse, hopening, ← Nat.add_assoc, Nat.add_sub_cancel]
  have hsplit : source = site.before.reverse ++ name ++ '{' :: site.content.rest := by
    rw [hsource, htext, hname]
    simp
  have hsize : ∀ interior : Text,
      Text.byteSize (site.before.reverse ++ name) + Text.byteSize ('{' :: interior) =
        site.offset + Text.byteSize (site.content.text ++ interior) := by
    intro interior
    rw [hname, List.append_assoc, List.singleton_append, Site.offset, Text.byteSize_append,
      Text.byteSize_append, Text.byteSize_reverse, Nat.add_assoc]
  rw [hsplit, hbrace, closingBrace?_brace]
  simp only [hsize]

/-! ### The blocks that are found -/

theorem recorded_of_mem_sites (h : block ∈ Block.sites header source) : Recorded source block := by
  obtain ⟨passed, ahead, length, hsource, hbefore, hmove⟩ := mem_scan h
  obtain ⟨hheader, ⟨rest, hinterior⟩, -⟩ := Block.move_eq_take_iff.mp hmove
  have hsource : source = block.header.before.reverse ++ ahead := by
    rw [hsource, Site.header, Site.map, hbefore, List.reverse_reverse]
  refine ⟨mem_occurrences_iff.mpr ⟨ahead, hsource, hheader⟩, ?_, ?_⟩
  · obtain ⟨rest, htext, -⟩ := Block.text_eq_append header_reads hmove
    exact ⟨rest, htext ▸ hsource⟩
  · have hopened : interior? block.header.content.rest = some (block.content.interior, rest) :=
      hinterior
    rw [closingBrace?_header hsource hheader, hopened]
    rfl

theorem close_lt_of_isSuffix {β : Type} (later : Site β)
    (h : block.content.text.reverse ++ block.before <:+ later.before) : block.close < later.offset := by
  have hoffset := Site.offset_add_le_of_isSuffix h
  rw [Block.text, Text.byteSize_append, Text.byteSize_closing] at hoffset
  rw [Site.close]
  omega

theorem pairwise_sites (source : Text) : (Block.sites header source).Pairwise
    fun block later => block.close < later.offset :=
  ((Block.searches header_reads).pairwise [] source).imp (close_lt_of_isSuffix _)

/-- Two blocks that are found are one, or one lies behind the other. -/
theorem apart : ∀ block ∈ Block.sites header source, ∀ other ∈ Block.sites header source,
    block = other ∨ block.close < other.offset ∨ other.close < block.offset := by
  refine List.Pairwise.forall_of_forall_of_flip (fun block _ => .inl rfl) ?_ ?_
  · exact (pairwise_sites source).imp fun hbehind => .inr (.inl hbehind)
  · exact (pairwise_sites source).imp fun hbehind => .inr (.inr hbehind)

theorem offset_le_brace (h : block ∈ Block.sites header source) :
    block.offset ≤ block.header.brace := by
  obtain ⟨ahead, -, hreading⟩ := mem_occurrences_iff.mp (recorded_of_mem_sites h).header
  have hsize := Text.byteSize_pos (marked_header.text_ne_nil hreading)
  have hsame : block.header.offset = block.offset := rfl
  rw [Site.brace, Site.span_stop]
  omega

/-- A header that begins inside of a block begins in its interior. -/
theorem inside_of_append {inner more rest : Text} {reading : Reading}
    (hblock : block ∈ Block.sites header source) (hreading : header (more ++ rest) = some reading)
    (hinner : inner ≠ []) (hmore : more ≠ []) (hpiece : block.content.text = inner ++ more) :
    block.header.brace < block.offset + inner.byteSize ∧
      block.offset + inner.byteSize < block.close := by
  obtain ⟨ahead, -, hheader⟩ := mem_occurrences_iff.mp (recorded_of_mem_sites hblock).header
  obtain ⟨name, hname, hat⟩ := exists_cons_of_header ahead _ hheader
  have hname : block.content.header.text = '@' :: name := hname
  obtain ⟨tail, rfl⟩ : ∃ tail, more = '@' :: tail := by
    obtain ⟨c, tail, rfl⟩ := List.exists_cons_of_ne_nil hmore
    obtain ⟨other, hother, -⟩ := exists_cons_of_header _ _ hreading
    have htext := (marked_header _ _ hreading).1
    rw [hother] at htext
    exact ⟨tail, by rw [(List.cons.inj htext).1]⟩
  have hsplit : '@' :: name ++ (block.content.interior ++ ['}']) = inner ++ '@' :: tail := by
    rw [← hname, ← hpiece, Block.text, List.append_assoc]
  obtain ⟨behind, rfl, hbehind⟩ := Text.exists_of_append_eq_append_cons hat hinner hsplit
  -- The last character of the block is its brace, so the header has more than its at sign there.
  have htail : tail ≠ [] := by
    rintro rfl
    have hlast := congrArg List.getLast? hbehind
    rw [List.getLast?_concat, List.getLast?_concat] at hlast
    exact absurd hlast (by decide)
  have hsize := congrArg Text.byteSize hbehind
  have htailSize := Text.byteSize_pos htail
  have hnameSize : 0 < block.content.header.text.byteSize := Text.byteSize_pos (by simp [hname])
  have hbrace : block.header.brace = block.offset + block.content.header.text.byteSize - 1 := by
    rw [Site.brace, Site.span_stop]
    rfl
  have hat : Text.byteSize ('@' :: tail) = 1 + Text.byteSize tail := rfl
  rw [Text.byteSize_append, Text.byteSize_append, Text.byteSize_closing, hat] at hsize
  rw [Site.close, hbrace, Text.byteSize_append, Text.byteSize_append, ← hname]
  omega

/-- The three ways in which a header of the source is dealt with. -/
theorem occurrence_cases (h : site ∈ header.occurrences source) :
    (∃ block ∈ Block.sites header source, block.header = site) ∨
      (∃ block ∈ Block.sites header source,
        block.header.brace < site.offset ∧ site.offset < block.close) ∨
      ∃ unclosed ∈ header.occurrences source, closingBrace? source unclosed.brace = none ∧
        unclosed.offset ≤ site.offset ∧
        ∀ block ∈ Block.sites header source, block.close < unclosed.offset := by
  obtain ⟨ahead, rfl, hreading⟩ := mem_occurrences_iff.mp h
  rcases Block.mem_sites_or header_reads marked_header hreading site.before.reverse with
    ⟨interior, hblock⟩ | ⟨block, hblock, inner, more, rest, hfront, rfl, hinner, hmore, hpiece⟩ |
      ⟨passed, inner, opened, hfront, hopened, hopen, hbehind⟩
  · refine .inl ⟨_, hblock, ?_⟩
    rw [Site.header, Site.map, List.reverse_reverse]
  · have hoffset : site.offset = block.offset + inner.byteSize := by
      rw [Site.offset, ← Text.byteSize_reverse, hfront, Text.byteSize_append, Text.byteSize_reverse]
      rfl
    rw [hoffset]
    exact .inr (.inl ⟨block, hblock, inside_of_append hblock hreading hinner hmore hpiece⟩)
  · have hsource : site.before.reverse ++ ahead = passed.reverse.reverse ++ (inner ++ ahead) := by
      rw [hfront, List.reverse_reverse, List.append_assoc]
    refine .inr (.inr ⟨⟨passed.reverse, opened⟩, mem_occurrences_iff.mpr ⟨_, hsource, hopened⟩, ?_, ?_,
      fun block hblock => ?_⟩)
    · rw [closingBrace?_header hsource hopened, hopen]
      rfl
    · have hsize : site.before.byteSize = passed.byteSize + inner.byteSize := by
        rw [← Text.byteSize_reverse, hfront, Text.byteSize_append]
      rw [Site.offset, Site.offset, hsize, Text.byteSize_reverse]
      omega
    · exact close_lt_of_isSuffix ⟨passed.reverse, opened⟩ (hbehind block hblock)

/-- No block is found behind a header that is left open and begins in no block. -/
theorem close_lt_of_unclosed (h : Unclosed source (Block.sites header source) site) :
    ∀ block ∈ Block.sites header source, block.close < site.offset := by
  rcases occurrence_cases h.occurs with
    ⟨block, hblock, rfl⟩ | ⟨block, hblock, hbrace, hclose⟩ | ⟨stop, -, -, hstop, hbehind⟩
  · have hclosed := (recorded_of_mem_sites hblock).close
    rw [h.unclosed] at hclosed
    contradiction
  · have hstart := offset_le_brace hblock
    rcases h.outside block hblock with hbefore | hafter <;> omega
  · exact fun block hblock => (hbehind block hblock).trans_le hstop

theorem exists_firstUnclosed {blocks : List (Site Block)} (h : Unclosed source blocks site) :
    ∃ first, FirstUnclosed source blocks first ∧ first.offset ≤ site.offset := by
  obtain ⟨first, hfirst, hleast⟩ := (measure Site.offset).wf.has_min
    {other | Unclosed source blocks other} ⟨site, h⟩
  exact ⟨first, ⟨hfirst, fun other hother => not_lt.mp (hleast other hother)⟩,
    not_lt.mp (hleast site h)⟩

theorem exactlyOne_of_mem_occurrences (h : site ∈ header.occurrences source) :
    ExactlyOne (∃! block, block ∈ Block.sites header source ∧ block.header = site)
      (∃ block ∈ Block.sites header source,
        block.header.brace < site.offset ∧ site.offset < block.close)
      (∃ first, FirstUnclosed source (Block.sites header source) first ∧
        first.offset ≤ site.offset) := by
  refine .of_or ?_ ?_ ?_
  · rcases occurrence_cases h with
      ⟨block, hblock, hheader⟩ | hinside | ⟨stop, hstop, hunclosed, hle, hbehind⟩
    · refine .inl ⟨block, ⟨hblock, hheader⟩, fun other ⟨hother, hsame⟩ => ?_⟩
      have hoffset : other.header.offset = block.header.offset := by rw [hsame, hheader]
      change other.offset = block.offset at hoffset
      have hblockClose := block.offset_le_close
      have hotherClose := other.offset_le_close
      rcases apart other hother block hblock with heq | hbefore | hafter
      · exact heq
      · omega
      · omega
    · exact .inr (.inl hinside)
    · have houtside : Unclosed source (Block.sites header source) stop :=
        ⟨hstop, fun block hblock => .inr (hbehind block hblock), hunclosed⟩
      obtain ⟨first, hfirst, hfirstLe⟩ := exists_firstUnclosed houtside
      exact .inr (.inr ⟨first, hfirst, hfirstLe.trans hle⟩)
  · rintro ⟨block, ⟨hblock, rfl⟩, -⟩ ⟨other, hother, hbrace, hclose⟩
    have hstart := offset_le_brace hother
    have hblockClose := block.offset_le_close
    have hsame : block.header.offset = block.offset := rfl
    rcases apart block hblock other hother with rfl | hbefore | hafter <;> omega
  · rintro ⟨first, hfirst, hle⟩
    have hbehind := close_lt_of_unclosed hfirst.1
    refine ⟨?_, ?_⟩
    · rintro ⟨block, ⟨hblock, rfl⟩, -⟩
      have hblockClose := block.offset_le_close
      have hsame : block.header.offset = block.offset := rfl
      have hclose := hbehind block hblock
      omega
    · rintro ⟨block, hblock, -, hinside⟩
      exact absurd (hinside.trans (hbehind block hblock)) (not_lt.mpr hle)

end Keyframes

/-- **Headers of keyframes.** Each record of keyframes in a parsed source is that of a header with the
block behind it, and these lie one behind the other. A header of the source is the header of exactly
one record, or it begins inside of the block of one, or not before the first header outside of these
blocks whose own block never closes. -/
theorem Config.exists_blocks_parse (config : Config) (source : Text) :
    ∃ blocks : List (Site Block),
      (config.parse source).sheet.keyframes.getD [] = blocks.map (Keyframes.recordAt source) ∧
      (∀ block ∈ blocks, Keyframes.Recorded source block) ∧
      (blocks.Pairwise fun block later => block.close < later.offset) ∧
      ∀ header ∈ Keyframes.header.occurrences source,
        ExactlyOne (∃! block, block ∈ blocks ∧ block.header = header)
          (∃ block ∈ blocks, block.header.brace < header.offset ∧ header.offset < block.close)
          (∃ first, Keyframes.FirstUnclosed source blocks first ∧ first.offset ≤ header.offset) := by
  refine ⟨Block.sites Keyframes.header source, ?_, fun block => Keyframes.recorded_of_mem_sites,
    Keyframes.pairwise_sites source, fun header => Keyframes.exactlyOne_of_mem_occurrences⟩
  rw [Config.parse, Document.parse_eq_parseAt, Document.sheet_parseAt, getD_present]
  refine List.map_congr_left fun block hblock => ?_
  obtain ⟨rest, htext⟩ := (Keyframes.recorded_of_mem_sites hblock).text
  exact Site.record_map_eq htext .loose Keyframes.ofBlock

/-- A header in a comment of a block, a header whose block stays open, and one behind it. -/
def Keyframes.entangled : Text :=
  "@keyframes a\x7b/*@keyframes b\x7b*/\x7d@keyframes c\x7b@keyframes d\x7b\x7d".toList

example : (Keyframes.header.occurrences Keyframes.entangled).map (fun site => site.content.value) =
      [['a'], ['b'], ['c'], ['d']] ∧
    (Keyframes.records Keyframes.entangled).map (fun record => record.content.name) = [['a']] := by
  decide

end Stylesheet
