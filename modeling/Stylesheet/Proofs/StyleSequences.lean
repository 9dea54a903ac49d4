import Stylesheet.Proofs.ByteOffsets
import Stylesheet.Proofs.DirectiveEnds
import Stylesheet.Proofs.LeadingBlanks
import Stylesheet.Proofs.RestingPlaces

/-!
# Sequences of rules

The scan for style rules reads what is written: each rule of a sequence gives one record, and what
follows the sequence is read as if it stood alone.
-/

namespace Stylesheet

namespace StyleRule

/-- A piece of a style sheet. -/
inductive Item where
  | blanks (text : Text)
  | comment (body : Text)
  | statement (heading : Text)
  | block (heading interior : Text)
  | rule (selector interior : Text)
deriving DecidableEq

namespace Item

def text : Item → Text
  | blanks text => text
  | comment body => "/*".toList ++ body ++ "*/".toList
  | statement heading => '@' :: heading ++ [';']
  | block heading interior => '@' :: heading ++ ('{' :: interior ++ ['}'])
  | rule selector interior => selector ++ ('{' :: interior ++ ['}'])

/-- An item ends where it says: a comment with its closer, a statement with its semicolon, and what
has a block with the brace that closes it. -/
def WellFormed : Item → Prop
  | blanks text => Blank text
  | comment body => ¬['*', '/'] <:+: body
  | statement heading => ';' ∉ heading ∧ '{' ∉ heading
  | block heading interior =>
      ';' ∉ heading ∧ '{' ∉ heading ∧
        closingBrace? ('{' :: interior ++ ['}']) 0 = some (Text.byteSize ('{' :: interior))
  | rule selector interior =>
      Selects selector ∧
        closingBrace? ('{' :: interior ++ ['}']) 0 = some (Text.byteSize ('{' :: interior))

/-- Whether an item is a rule or an at-rule. -/
def closes : Item → Bool
  | blanks _ | comment _ => false
  | statement _ | block _ _ | rule _ _ => true

/-- The record of a rule that has the text `before` before it in a source. -/
def record? (source before : Text) : Item → Option (Record Rule)
  | rule selector interior =>
      some ⟨attachedComments source before.byteSize .strict, before.count '\n' + 1,
        ⟨selector.trim, Declaration.splitStripped interior⟩⟩
  | _ => none

end Item

/-- The records of the rules among items that have the text `before` before them in a source. -/
def recordsOf (source : Text) : (before : Text) → List Item → List (Record Rule)
  | _, [] => []
  | before, item :: items =>
      (item.record? source before).toList ++ recordsOf source (before ++ item.text) items

namespace Item.WellFormed

variable {item : Item}

theorem passes_statement {heading : Text} (h : (statement heading).WellFormed) :
    Passes move (statement heading).text := by
  have hheading : Unended ('@' :: heading) :=
    List.forall_mem_cons.mpr ⟨by decide, unended_iff.mpr h⟩
  refine passes_atRule fun rest => atRule?_eq_some_iff.mpr ⟨'@' :: heading, hheading, .inl ⟨?_, rfl⟩⟩
  simp

theorem passes_block {heading interior : Text} (h : (block heading interior).WellFormed) :
    Passes move (block heading interior).text := by
  obtain ⟨hsemicolon, hopening, hclose⟩ := h
  have hheading : Unended ('@' :: heading) :=
    List.forall_mem_cons.mpr ⟨by decide, unended_iff.mpr ⟨hsemicolon, hopening⟩⟩
  have hinterior := (enclosed_iff_closingBrace?.mpr hclose).interior?_eq
  refine passes_atRule fun rest => atRule?_eq_some_iff.mpr
    ⟨'@' :: heading, hheading, .inr ⟨interior ++ '}' :: rest, interior, ?_, hinterior rest, ?_⟩⟩
  · simp
  · simp

/-- One item, from whatever place and with whatever text behind it. -/
theorem scanFrom_item (h : item.WellFormed) (before rest : Text) :
    (scanFrom move 0 before.reverse (item.text ++ rest)).map (Site.record .strict) =
      (item.record? (before ++ (item.text ++ rest)) before).toList ++
        (scanFrom move 0 (before ++ item.text).reverse rest).map (Site.record .strict) := by
  have hpass : Passes move item.text → item.record? (before ++ (item.text ++ rest)) before = none →
      (scanFrom move 0 before.reverse (item.text ++ rest)).map (Site.record .strict) =
        (item.record? (before ++ (item.text ++ rest)) before).toList ++
          (scanFrom move 0 (before ++ item.text).reverse rest).map (Site.record .strict) := by
    intro hpasses hnone
    rw [hnone, hpasses, List.reverse_append]
    rfl
  cases item with
  | blanks text => exact hpass (passes_blank h) rfl
  | comment body => exact hpass (passes_comment h) rfl
  | statement heading => exact hpass (passes_statement h) rfl
  | block heading interior => exact hpass (passes_block h) rfl
  | rule selector interior =>
      obtain ⟨hselects, hclose⟩ := h
      have hmove : move ((rule selector interior).text ++ rest) =
          .take ⟨selector.trim, Declaration.splitStripped interior⟩
            (rule selector interior).text.length :=
        hselects.move_eq (enclosed_iff_closingBrace?.mpr hclose) rest
      have hne : (rule selector interior).text ≠ [] := by simp [Item.text]
      rw [scanFrom_take hne hmove, List.map_cons, List.reverse_append, Item.record?,
        attachedComments_append, Site.record, Site.line, List.count_reverse]
      rfl

end Item.WellFormed

/-- A sequence of items. -/
theorem scanFrom_items {items : List Item} (hitems : ∀ item ∈ items, item.WellFormed)
    (before rest : Text) :
    (scanFrom move 0 before.reverse (items.flatMap Item.text ++ rest)).map (Site.record .strict) =
      recordsOf (before ++ (items.flatMap Item.text ++ rest)) before items ++
        (scanFrom move 0 (before ++ items.flatMap Item.text).reverse rest).map
          (Site.record .strict) := by
  induction items generalizing before with
  | nil =>
      rw [List.flatMap_nil, List.append_nil]
      rfl
  | cons item items ih =>
      obtain ⟨hitem, hothers⟩ := List.forall_mem_cons.mp hitems
      have hrest := ih hothers (before ++ item.text)
      rw [List.append_assoc, List.append_assoc] at hrest
      rw [List.flatMap_cons, List.append_assoc, hitem.scanFrom_item, hrest, recordsOf,
        List.append_assoc]

theorem Item.exists_last_of_closes {item : Item} (h : item.closes = true) :
    ∃ front c, item.text = front ++ [c] ∧ (c = '}' ∨ c = ';') := by
  cases item with
  | blanks text => contradiction
  | comment body => contradiction
  | statement heading => exact ⟨'@' :: heading, ';', rfl, .inr rfl⟩
  | block heading interior =>
      exact ⟨'@' :: heading ++ '{' :: interior, '}', by simp [Item.text], .inl rfl⟩
  | rule selector interior =>
      exact ⟨selector ++ '{' :: interior, '}', by simp [Item.text], .inl rfl⟩

/-- Behind a text that ends a rule or an at-rule the comments of what follows are its own. -/
theorem attached_behind {front rest : Text} {c : Char} (hc : c = '}' ∨ c = ';')
    (happart : ¬Reopens rest ∨ ¬['/', '*'] <:+: front ++ [c]) {site : Site Rule}
    (hsite : site ∈ scan move rest) :
    Adjacency.strict.attached (site.before ++ (front ++ [c]).reverse) =
      Adjacency.strict.attached site.before := by
  have hblank : isBlank c = false := by rcases hc with rfl | rfl <;> decide
  have hslash : c ≠ '/' := by rcases hc with rfl | rfl <;> decide
  have hstar : c ≠ '*' := by rcases hc with rfl | rfl <;> decide
  have hreverse : (front ++ [c]).reverse = c :: front.reverse := by simp
  apply Adjacency.attached_congr
  rcases happart with hreopens | hopener
  · obtain ⟨passed, ahead, -, rfl, hbefore, -⟩ := mem_scan hsite
    refine readBack_rested (rested_of_mem_scan hsite) (fun h => hreopens (h.of_infix ?_)) ?_
    · rw [hbefore, List.reverse_reverse]
      exact (List.prefix_append passed ahead).isInfix
    · rw [hreverse]
      exact Adjacency.bare_cons hblank hslash front.reverse
  · have hnothing : ∀ state, Adjacency.strict.readBack state (front ++ [c]).reverse = [] := by
      refine Adjacency.readBack_eq_nil fun hpart => hopener (List.reverse_infix.mp ?_)
      exact hpart
    have hends : ∀ {d : Char}, c ≠ d → d ∉ (front ++ [c]).reverse.head? := by
      intro d hne hhead
      rw [hreverse] at hhead
      exact hne (Option.some.inj hhead)
    rcases Adjacency.readBack_none_append (hends hstar) (hends hslash) site.before with
      ⟨state, -, hread⟩ | hread
    · rw [hread, hnothing, List.append_nil]
    · exact hread

/-- **Sequences of rules.** A sequence of items that ends with a rule or an at-rule gives one record
for each of its rules, in their order, and then the records of whatever text follows, on later lines.
No comment is taken from the sequence if the text that follows does not reopen a comment or the
sequence has no opener. -/
theorem records_items_append {items : List Item} (hitems : ∀ item ∈ items, item.WellFormed)
    (hlast : ∃ item ∈ items.getLast?, item.closes = true) {rest : Text}
    (happart : ¬Reopens rest ∨ ¬['/', '*'] <:+: items.flatMap Item.text) :
    records (items.flatMap Item.text ++ rest) =
      recordsOf (items.flatMap Item.text ++ rest) [] items ++
        (records rest).map (Record.shifted ((items.flatMap Item.text).count '\n')) := by
  obtain ⟨last, hmem, hcloses⟩ := hlast
  obtain ⟨others, rfl⟩ := List.getLast?_eq_some_iff.mp hmem
  obtain ⟨front, c, htext, hc⟩ := Item.exists_last_of_closes hcloses
  have hend : (others ++ [last]).flatMap Item.text = others.flatMap Item.text ++ front ++ [c] := by
    rw [List.flatMap_append, List.flatMap_singleton, htext, List.append_assoc]
  have hrest : ((scan move rest).map (Site.behind ((others ++ [last]).flatMap Item.text))).map
      (Site.record .strict) =
        (records rest).map (Record.shifted (((others ++ [last]).flatMap Item.text).count '\n')) := by
    rw [records, List.map_map, List.map_map]
    refine List.map_congr_left fun site hsite => ?_
    rw [hend] at happart ⊢
    rw [Function.comp_apply, Function.comp_apply, Site.record, Site.line_behind, Site.behind,
      attached_behind hc happart hsite]
    rfl
  calc
    records ((others ++ [last]).flatMap Item.text ++ rest) =
        recordsOf ((others ++ [last]).flatMap Item.text ++ rest) [] (others ++ [last]) ++
          (scanFrom move 0 ((others ++ [last]).flatMap Item.text).reverse rest).map
            (Site.record .strict) := scanFrom_items hitems [] rest
    _ = _ := by rw [scanFrom_reverse, hrest]

/-- Items of each sort. -/
def listed : List Item :=
  [.comment " a\n".toList, .rule "b ".toList "c:d;/*\x7d*/".toList, .blanks "\n".toList,
    .statement "e \"f\" ".toList, .block "g".toList "h\x7bi:j\x7d".toList]

/-- Text with a comment, a rule, and a block that stays open. -/
def unclosed : Text :=
  " /* k */ l\x7b\x7d m\x7b".toList

theorem records_items_listed :
    (∀ item ∈ listed, item.WellFormed) ∧ (∃ item ∈ listed.getLast?, item.closes = true) ∧
      ¬Reopens unclosed ∧
      records (listed.flatMap Item.text ++ unclosed) =
        recordsOf (listed.flatMap Item.text ++ unclosed) [] listed ++
          (records unclosed).map (Record.shifted 2) := by
  have hselects : Selects "b ".toList :=
    ⟨by decide, by decide, by rintro c ⟨⟩; decide, by decide⟩
  have hitems : ∀ item ∈ listed, item.WellFormed := by
    rw [listed, List.forall_mem_cons, List.forall_mem_cons, List.forall_mem_cons,
      List.forall_mem_cons, List.forall_mem_singleton]
    unfold Item.WellFormed
    exact ⟨by decide, ⟨hselects, by decide⟩, blank_feed, by decide, by decide⟩
  have hlast : ∃ item ∈ listed.getLast?, item.closes = true := ⟨_, rfl, rfl⟩
  have hreopens : ¬Reopens unclosed := by
    rintro ⟨blanks, -, hpart⟩
    have hslashed : "/*/".toList <:+: unclosed :=
      ((List.prefix_append _ _).trans (List.prefix_append _ _)).isInfix.trans hpart
    exact absurd hslashed (by decide)
  exact ⟨hitems, hlast, hreopens, records_items_append hitems hlast (.inl hreopens)⟩

/-- A rule with a comment in its block, and behind it a comment whose body is an opener but for the
slash that it begins with. -/
def crossed : List Item :=
  [.rule "a".toList "/* c */".toList]

/-- Read back from the second rule, the comment that begins with a slash reaches into the block of
the first. -/
theorem records_items_crossed_ne :
    ∃ items rest, (∀ item ∈ items, item.WellFormed) ∧
      (∃ item ∈ items.getLast?, item.closes = true) ∧
      records (items.flatMap Item.text ++ rest) ≠
        recordsOf (items.flatMap Item.text ++ rest) [] items ++
          (records rest).map (Record.shifted ((items.flatMap Item.text).count '\n')) := by
  have hselects : Selects "a".toList :=
    ⟨by decide, by decide, by rintro c ⟨⟩; decide, by decide⟩
  refine ⟨crossed, "/*//* y */ .z\x7b\x7d".toList, ?_, ⟨_, rfl, rfl⟩, by decide⟩
  exact List.forall_mem_singleton.mpr ⟨hselects, by decide⟩

end StyleRule

end Stylesheet
