import Stylesheet.Proofs.Fragments

/-!
# Interiors of media blocks

The rules of a media block are its items, one for one. A selector takes the blanks before it along,
so the scan never begins inside of an item, and an item's braces decide where it ends.
-/

namespace Stylesheet

namespace MediaBlock

/-- The rules in the interior of a media block that is found at a depth. -/
def rulesAt (cap : Option Nat) (depth : Nat) (interior : Text) : List (MediaRule Document) :=
  (rulesOf interior).filterMap (MediaRule.expand (Document.parseNested cap (depth + 1)))

theorem rules_mediaRecord (cap : Option Nat) (depth : Nat) (site : Site Block) :
    (Document.mediaRecord cap depth site).content.rules =
      rulesAt cap depth site.content.interior :=
  rfl

/-- A rule or an at-rule of a media block, with the blanks before it. -/
inductive Item where
  | style (lead selector interior : Text)
  | atRule (lead run interior : Text)
deriving DecidableEq

namespace Item

def text : Item → Text
  | style lead selector interior => lead ++ (selector ++ ('{' :: interior ++ ['}']))
  | atRule lead run interior => lead ++ MediaRule.atRuleText run interior

/-- The last brace of an item is the one that closes its first, and before that the item has a
selector or the characters of an at-rule's header. -/
def WellFormed : Item → Prop
  | style lead selector interior =>
      Blank lead ∧ '{' ∉ selector ∧ '@' ∉ selector ∧ selector.trim ≠ [] ∧
        closingBrace? ('{' :: interior ++ ['}']) 0 = some (Text.byteSize ('{' :: interior))
  | atRule lead run interior =>
      Blank lead ∧ run ≠ [] ∧ (∀ c ∈ run, isHeaderChar c = true) ∧
        closingBrace? ('{' :: interior ++ ['}']) 0 = some (Text.byteSize ('{' :: interior))

/-- What an item stands for. An at-rule is parsed one level deeper, if the cap keeps that level. -/
def rule? (cap : Option Nat) (depth : Nat) : Item → Option (MediaRule Document)
  | style _ selector interior => some (.style ⟨selector.trim, Declaration.split interior⟩)
  | atRule _ run interior =>
      if Document.keeps cap (depth + 1) then
        some (.atRule (Document.parseAt cap (depth + 1) (MediaRule.atRuleText run interior)))
      else none

/-- What an item stands for before its nested text is parsed. -/
def rule : Item → MediaRule Text
  | style _ selector interior => .style ⟨selector.trim, Declaration.split interior⟩
  | atRule _ run interior => .atRule (MediaRule.atRuleText run interior)

theorem expand_rule (cap : Option Nat) (depth : Nat) (item : Item) :
    item.rule.expand (Document.parseNested cap (depth + 1)) = item.rule? cap depth := by
  cases item with
  | style lead selector interior => rfl
  | atRule lead run interior =>
      rw [rule, MediaRule.expand, Document.parseNested, rule?]
      by_cases hkeeps : Document.keeps cap (depth + 1) = true
      · rw [if_pos hkeeps, if_pos hkeeps, Option.map_some]
      · rw [if_neg hkeeps, if_neg hkeeps, Option.map_none]

end Item

theorem ruleOf?_selector {lead selector interior : Text} (hlead : Blank lead)
    (hopening : '{' ∉ selector) (hat : '@' ∉ selector) (hne : selector.trim ≠ [])
    (hinterior : Enclosed interior) (rest : Text) :
    (scanContents (Block.move innerHeader)
        (lead ++ (selector ++ ('{' :: interior ++ ['}'])) ++ rest)).map ruleOf? =
      some (.style ⟨selector.trim, Declaration.split interior⟩) ::
        (scanContents (Block.move innerHeader) rest).map ruleOf? := by
  have hrun : ∀ c ∈ lead ++ selector, isSelectorChar c = true := by
    intro c hc
    rcases List.mem_append.mp hc with hc | hc
    · exact isSelectorChar_of_isBlank (hlead c hc)
    · have hopening : c ≠ '{' := fun heq => hopening (heq ▸ hc)
      have hat : c ≠ '@' := fun heq => hat (heq ▸ hc)
      simp [isSelectorChar, hopening, hat]
  have htrim : Text.trim (lead ++ selector) = selector.trim := by
    have hpad := Text.trim_pad hlead (blank_of_all rfl : Blank []) selector
    rwa [List.append_nil] at hpad
  obtain ⟨block, hmove, hblock⟩ := move_selector hrun (htrim.symm ▸ hne) hinterior rest
  have htext : lead ++ (selector ++ ('{' :: interior ++ ['}'])) =
      lead ++ selector ++ ('{' :: interior ++ ['}']) :=
    (List.append_assoc _ _ _).symm
  have hnonempty : lead ++ selector ++ ('{' :: interior ++ ['}']) ≠ [] :=
    List.append_ne_nil_of_right_ne_nil _ (List.cons_ne_nil _ _)
  rw [htext, scanContents_take hnonempty hmove, List.map_cons, hblock, htrim]

/-- One item is the next find, whatever follows it and whatever blanks came before. -/
theorem ruleOf?_item {item : Item} (h : item.WellFormed) {lead : Text} (hlead : Blank lead)
    (rest : Text) :
    (scanContents (Block.move innerHeader) (lead ++ (item.text ++ rest))).map ruleOf? =
      some item.rule :: (scanContents (Block.move innerHeader) rest).map ruleOf? := by
  cases item with
  | style blanks selector interior =>
      obtain ⟨hblanks, hopening, hat, hne, hclose⟩ := h
      have hitem := ruleOf?_selector (hlead.append hblanks) hopening hat hne
        (enclosed_iff_closingBrace?.mpr hclose) rest
      simpa only [Item.text, Item.rule, List.append_assoc] using hitem
  | atRule blanks run interior =>
      obtain ⟨hblanks, hne, hchars, hclose⟩ := h
      have hitem := ruleOf?_atRule hne hchars (enclosed_iff_closingBrace?.mpr hclose)
        (hlead.append hblanks) rest
      simpa only [Item.text, Item.rule, List.append_assoc] using hitem

theorem rulesOf_items {items : List Item} (hitems : ∀ item ∈ items, item.WellFormed)
    {trail : Text} (htrail : Blank trail) :
    rulesOf (items.flatMap Item.text ++ trail) = items.map Item.rule := by
  have hnone : Blank [] := blank_of_all rfl
  have hfinds := scanContents_items (fun _ => scanContents_blanks)
    (fun item hmem => ⟨[], hnone, fun lead rest hlead => ruleOf?_item (hitems item hmem) hlead rest⟩)
    [] trail hnone htrail
  have hrules := congrArg (List.filterMap id) hfinds
  rw [List.filterMap_map, List.filterMap_map] at hrules
  calc
    rulesOf (items.flatMap Item.text ++ trail) =
        items.filterMap (id ∘ fun item => some item.rule) := hrules
    _ = items.map Item.rule := by
      rw [← List.filterMap_eq_map]
      rfl

/-- **The items of a media block.** However many items a media block has, each of them is one entry
of its rules, in their order; only an at-rule that lies deeper than the cap has none. -/
theorem rulesAt_items (cap : Option Nat) (depth : Nat) {items : List Item}
    (hitems : ∀ item ∈ items, item.WellFormed) {trail : Text} (htrail : Blank trail) :
    rulesAt cap depth (items.flatMap Item.text ++ trail) =
      items.filterMap (Item.rule? cap depth) := by
  rw [rulesAt, rulesOf_items hitems htrail, List.filterMap_map]
  apply List.filterMap_congr
  intro item _
  exact Item.expand_rule cap depth item

/-- Two rules with a nested block between them. -/
def mixedItems : List Item :=
  [.style [] "a".toList "b:c;/* \x7d */".toList,
    .atRule "\n ".toList "media (x)".toList "d{e:f}".toList,
    .style " ".toList "g ".toList []]

theorem rulesAt_mixedItems :
    (∀ item ∈ mixedItems, item.WellFormed) ∧ Blank ['\n'] ∧
      rulesAt (some 0) 0 (mixedItems.flatMap Item.text ++ ['\n']) =
        mixedItems.filterMap (Item.rule? (some 0) 0) := by
  have hitems : ∀ item ∈ mixedItems, item.WellFormed := by
    rw [mixedItems, List.forall_mem_cons, List.forall_mem_cons, List.forall_mem_singleton]
    unfold Item.WellFormed
    have hrun : ∀ c ∈ "media (x)".toList, isHeaderChar c = true := List.all_eq_true.mp rfl
    refine ⟨⟨blank_of_all rfl, ?_⟩, ⟨blank_of_all rfl, ?_, hrun, ?_⟩, blank_space, ?_⟩
    all_goals decide
  exact ⟨hitems, blank_feed, rulesAt_items (some 0) 0 hitems blank_feed⟩

end MediaBlock

end Stylesheet
