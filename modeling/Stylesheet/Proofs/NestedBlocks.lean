import Mathlib.Data.Set.Function
import Stylesheet.Proofs.CheckedBraces
import Stylesheet.Proofs.LeadingText

/-!
# Nested blocks

A search for a closing brace follows the tokens of the text from its own start on. Searches from
different braces read the same tokens, so inside a closed block their results pair the braces up, and
two pairs lie apart or one inside the other.
-/

namespace Stylesheet

namespace Token

variable {sites inner earlier later : List (Site Token)} {site close : Site Token}
  {front ahead : Text} {depth : Int}

/-- The token at which the braces of a run of tokens are closed, when `depth` are open before it. -/
def closer? : (depth : Int) → List (Site Token) → Option (Site Token)
  | _, [] => none
  | depth, site :: sites =>
      match site.content.kind with
      | .opening => closer? (depth + 1) sites
      | .closing => if depth = 1 then some site else closer? (depth - 1) sites
      | .openComment => none
      | .text | .slash | .comment => closer? depth sites

/-! ### The tokens that a search follows -/

/-- The first token of a text, and what it means for the braces. -/
theorem exists_first (before : Text) (hahead : ahead ≠ []) :
    ∃ token rest, ahead = token.lexeme ++ rest ∧ rest.length < ahead.length ∧
      scanFrom move 0 before ahead =
        ⟨before, token⟩ :: scanFrom move 0 (token.lexeme.reverse ++ before) rest ∧
      ∀ depth, balance false depth ahead = Checked.afterToken token rest depth := by
  have hsplit : ahead = [] ++ ahead := rfl
  obtain ⟨token, rest, h⟩ := Checked.exists_token hsplit hahead
  obtain rfl := h.ahead_eq
  refine ⟨token, rest, rfl, ?_, ?_, h.braces⟩
  · have hpositive := List.length_pos_iff.mpr h.progress
    rw [List.length_append]
    omega
  · refine scanFrom_take h.progress ?_
    rw [move, h.first]

/-- The search ends at the token at which the braces of the tokens are closed. -/
theorem closer?_scanFrom (depth : Int) (before ahead : Text) :
    (closer? depth (scanFrom move 0 before ahead)).map Site.offset =
      (balance false depth ahead).map fun cut => before.byteSize + cut.1.byteSize := by
  induction hlength : ahead.length using Nat.strong_induction_on generalizing depth before ahead with
  | _ length ih =>
      by_cases hahead : ahead = []
      · subst hahead
        rfl
      obtain ⟨token, rest, rfl, hshorter, hscan, hbalance⟩ := exists_first before hahead
      have hrest : ∀ depth, (closer? depth
          (scanFrom move 0 (token.lexeme.reverse ++ before) rest)).map Site.offset =
            ((balance false depth rest).map fun cut => (token.lexeme ++ cut.1, cut.2)).map
              fun cut => before.byteSize + cut.1.byteSize := by
        intro depth
        rw [ih rest.length (hlength ▸ hshorter) depth _ rest rfl, Option.map_map]
        congr 1
        funext cut
        simp only [Function.comp_apply, Text.byteSize_append, Text.byteSize_reverse]
        omega
      rw [hscan, hbalance, closer?, Checked.afterToken]
      cases token.kind with
      | opening => exact hrest (depth + 1)
      | closing =>
          by_cases hdepth : depth = 1
          · simp only [hdepth, if_true]
            rfl
          · simp only [hdepth, if_false]
            exact hrest (depth - 1)
      | openComment => rfl
      | text => exact hrest depth
      | slash => exact hrest depth
      | comment => exact hrest depth

/-- The tokens behind a token are those of the text behind it. -/
theorem closingBrace?_of_mem_sites
    (h : scanFrom move 0 front.reverse ahead = earlier ++ site :: later) :
    closingBrace? (front ++ ahead) site.offset = (closer? 0 (site :: later)).map Site.offset := by
  obtain ⟨passed, behind, rfl, hbefore, hscan⟩ := scanFrom_eq_append_cons h
  have htext : front ++ (passed ++ behind) = site.before.reverse ++ behind := by
    rw [hbefore]
    simp
  have hoffset : site.offset = Text.byteSize site.before.reverse :=
    (Text.byteSize_reverse site.before).symm
  rw [htext, hoffset, closingBrace?_append, ← hscan, closer?_scanFrom, Text.byteSize_reverse]

/-! ### Pairs of braces -/

/-- A run of tokens in which every brace has its partner, and the pairs of partners. -/
inductive Nested : (sites : List (Site Token)) → (pairs : List (Site Token × Site Token)) → Prop
  | nil : Nested [] []
  | skip {site : Site Token} {sites : List (Site Token)} {pairs : List (Site Token × Site Token)}
      (other : site.content.kind ∈ [.text, .slash, .comment]) (nested : Nested sites pairs) :
      Nested (site :: sites) pairs
  | block {opening closing : Site Token} {inner rest : List (Site Token)}
      {pairs others : List (Site Token × Site Token)} (opens : opening.content.kind = .opening)
      (closes : closing.content.kind = .closing) (inside : Nested inner pairs)
      (behind : Nested rest others) :
      Nested (opening :: (inner ++ closing :: rest)) ((opening, closing) :: (pairs ++ others))

theorem closer?_skip (h : site.content.kind ∈ [.text, .slash, .comment]) (depth : Int)
    (sites : List (Site Token)) : closer? depth (site :: sites) = closer? depth sites := by
  rw [closer?]
  simp only [List.mem_cons, List.not_mem_nil, or_false] at h
  rcases h with hkind | hkind | hkind <;> rw [hkind]

theorem closer?_opening (h : site.content.kind = .opening) (depth : Int) (sites : List (Site Token)) :
    closer? depth (site :: sites) = closer? (depth + 1) sites := by
  rw [closer?, h]

theorem closer?_closing (h : site.content.kind = .closing) (depth : Int) (sites : List (Site Token)) :
    closer? depth (site :: sites) = if depth = 1 then some site else closer? (depth - 1) sites := by
  rw [closer?, h]

namespace Nested

variable {pairs : List (Site Token × Site Token)}

/-- A run in which every brace has its partner is passed over, however many braces are open. -/
theorem closer?_append (h : Nested inner pairs) (hdepth : 1 ≤ depth) (rest : List (Site Token)) :
    closer? depth (inner ++ rest) = closer? depth rest := by
  induction h generalizing depth rest with
  | nil => rfl
  | skip hother _ ih => rw [List.cons_append, closer?_skip hother, ih hdepth]
  | block hopens hcloses _ _ ihInside ihBehind =>
      have hdeeper : 1 ≤ depth + 1 := by omega
      rw [List.cons_append, closer?_opening hopens, List.append_assoc, ihInside hdeeper,
        List.cons_append, closer?_closing hcloses, if_neg (by omega), Int.add_sub_cancel,
        ihBehind hdepth]

/-- The tokens up to the one that closes the braces are such a run. -/
theorem exists_of_closer? (hdepth : 1 ≤ depth) (h : closer? depth sites = some close) :
    ∃ inner pairs closing rest, sites = inner ++ closing :: rest ∧ Nested inner pairs ∧
      closing.content.kind = .closing ∧ closer? depth (closing :: rest) = some close := by
  induction hlength : sites.length using Nat.strong_induction_on generalizing depth sites with
  | _ length ih =>
      cases sites with
      | nil => contradiction
      | cons site sites =>
          have hshorter : sites.length < length := hlength ▸ Nat.lt_succ_self _
          cases hkind : site.content.kind with
          | opening =>
              -- First the brace that closes this one, then the search goes on behind it.
              rw [closer?_opening hkind] at h
              obtain ⟨inner, pairs, closing, behind, rfl, hinner, hcloses, hclose⟩ :=
                ih sites.length hshorter (by omega) h rfl
              rw [closer?_closing hcloses, if_neg (by omega), Int.add_sub_cancel] at hclose
              have hbehind : behind.length < length := by
                rw [List.length_append, List.length_cons] at hshorter
                omega
              obtain ⟨rest, others, last, after, rfl, hrest, hlast, hfound⟩ :=
                ih behind.length hbehind hdepth hclose rfl
              refine ⟨_, _, last, after, ?_, .block hkind hcloses hinner hrest, hlast, hfound⟩
              simp
          | closing => exact ⟨[], [], site, sites, rfl, .nil, hkind, h⟩
          | openComment =>
              rw [closer?, hkind] at h
              contradiction
          | text | slash | comment =>
              have hother : site.content.kind ∈ [.text, .slash, .comment] := by simp [hkind]
              rw [closer?_skip hother] at h
              obtain ⟨inner, pairs, closing, rest, rfl, hinner, hcloses, hclose⟩ :=
                ih sites.length hshorter hdepth h rfl
              exact ⟨site :: inner, pairs, closing, rest, rfl, .skip hother hinner, hcloses, hclose⟩

/-- A pair of partners, and what stands between them. -/
theorem exists_of_mem (h : Nested sites pairs) {pair : Site Token × Site Token} (hpair : pair ∈ pairs) :
    ∃ earlier inner others later, sites = earlier ++ pair.1 :: (inner ++ pair.2 :: later) ∧
      pair.1.content.kind = .opening ∧ pair.2.content.kind = .closing ∧ Nested inner others := by
  induction h with
  | nil => exact absurd hpair List.not_mem_nil
  | @skip site _ _ _ _ ih =>
      obtain ⟨earlier, inner, others, later, rfl, hopens, hcloses, hinner⟩ := ih hpair
      exact ⟨site :: earlier, inner, others, later, rfl, hopens, hcloses, hinner⟩
  | @block opening closing inside behind _ _ hopens hcloses hinside _ ihInside ihBehind =>
      rcases List.mem_cons.mp hpair with rfl | hpair
      · exact ⟨[], inside, _, behind, rfl, hopens, hcloses, hinside⟩
      rcases List.mem_append.mp hpair with hpair | hpair
      · obtain ⟨earlier, inner, others, later, rfl, hfirst, hlast, hinner⟩ := ihInside hpair
        refine ⟨opening :: earlier, inner, others, later ++ closing :: behind, ?_, hfirst, hlast, hinner⟩
        simp
      · obtain ⟨earlier, inner, others, later, rfl, hfirst, hlast, hinner⟩ := ihBehind hpair
        refine ⟨opening :: (inside ++ closing :: earlier), inner, others, later, ?_, hfirst, hlast,
          hinner⟩
        simp

theorem mem_sites (h : Nested sites pairs) {pair : Site Token × Site Token} (hpair : pair ∈ pairs) :
    pair.1 ∈ sites ∧ pair.2 ∈ sites := by
  obtain ⟨earlier, inner, others, later, rfl, -, -, -⟩ := h.exists_of_mem hpair
  simp

theorem exists_pair (h : Nested sites pairs) (hsite : site ∈ sites)
    (hbrace : site.content.kind ∉ [.text, .slash, .comment]) :
    ∃ pair ∈ pairs, site = pair.1 ∨ site = pair.2 := by
  induction h with
  | nil => exact absurd hsite List.not_mem_nil
  | skip hother _ ih =>
      rcases List.mem_cons.mp hsite with rfl | hsite
      · exact absurd hother hbrace
      · exact ih hsite
  | @block opening closing _ _ _ _ _ _ _ _ ihInside ihBehind =>
      rcases List.mem_cons.mp hsite with rfl | hsite
      · exact ⟨(site, closing), List.mem_cons_self, .inl rfl⟩
      rcases List.mem_append.mp hsite with hsite | hsite
      · obtain ⟨pair, hpair, hpartner⟩ := ihInside hsite
        exact ⟨pair, List.mem_cons_of_mem _ (List.mem_append_left _ hpair), hpartner⟩
      rcases List.mem_cons.mp hsite with rfl | hsite
      · exact ⟨(opening, site), List.mem_cons_self, .inr rfl⟩
      · obtain ⟨pair, hpair, hpartner⟩ := ihBehind hsite
        exact ⟨pair, List.mem_cons_of_mem _ (List.mem_append_right _ hpair), hpartner⟩

theorem opening_iff (h : Nested sites pairs) :
    site ∈ sites ∧ site.content.kind = .opening ↔ ∃ pair ∈ pairs, pair.1 = site := by
  constructor
  · rintro ⟨hsite, hopens⟩
    obtain ⟨pair, hpair, rfl | rfl⟩ := h.exists_pair hsite (by simp [hopens])
    · exact ⟨pair, hpair, rfl⟩
    · obtain ⟨_, _, _, _, -, -, hcloses, -⟩ := h.exists_of_mem hpair
      rw [hcloses] at hopens
      contradiction
  · rintro ⟨pair, hpair, rfl⟩
    obtain ⟨_, _, _, _, -, hopens, -, -⟩ := h.exists_of_mem hpair
    exact ⟨(h.mem_sites hpair).1, hopens⟩

theorem closing_iff (h : Nested sites pairs) :
    site ∈ sites ∧ site.content.kind = .closing ↔ ∃ pair ∈ pairs, pair.2 = site := by
  constructor
  · rintro ⟨hsite, hcloses⟩
    obtain ⟨pair, hpair, rfl | rfl⟩ := h.exists_pair hsite (by simp [hcloses])
    · obtain ⟨_, _, _, _, -, hopens, -, -⟩ := h.exists_of_mem hpair
      rw [hopens] at hcloses
      contradiction
    · exact ⟨pair, hpair, rfl⟩
  · rintro ⟨pair, hpair, rfl⟩
    obtain ⟨_, _, _, _, -, -, hcloses, -⟩ := h.exists_of_mem hpair
    exact ⟨(h.mem_sites hpair).2, hcloses⟩

/-- Of two pairs, the later one lies behind the earlier one or inside of it. -/
theorem pairwise (h : Nested sites pairs) (hsites : sites.Pairwise (·.offset < ·.offset)) :
    pairs.Pairwise fun pair other => pair.1.offset < other.1.offset ∧
      (pair.2.offset < other.1.offset ∨ other.2.offset < pair.2.offset) := by
  induction h with
  | nil => exact .nil
  | skip _ _ ih => exact ih (List.pairwise_cons.mp hsites).2
  | @block opening closing inner rest _ _ _ _ hinside hbehind ihInside ihBehind =>
      obtain ⟨hfirst, hothers⟩ := List.pairwise_cons.mp hsites
      obtain ⟨hinner, hlater, hacross⟩ := List.pairwise_append.mp hothers
      obtain ⟨hclosing, hrest⟩ := List.pairwise_cons.mp hlater
      refine List.pairwise_cons.mpr ⟨fun pair hpair => ?_, ?_⟩
      · rcases List.mem_append.mp hpair with hpair | hpair
        · obtain ⟨hopen, hclose⟩ := hinside.mem_sites hpair
          exact ⟨hfirst _ (List.mem_append_left _ hopen),
            .inr (hacross _ hclose _ List.mem_cons_self)⟩
        · obtain ⟨hopen, -⟩ := hbehind.mem_sites hpair
          exact ⟨hfirst _ (List.mem_append_right _ (List.mem_cons_of_mem _ hopen)),
            .inl (hclosing _ hopen)⟩
      · refine List.pairwise_append.mpr ⟨ihInside hinner, ihBehind hrest, ?_⟩
        intro pair hpair other hother
        obtain ⟨hopen, hclose⟩ := hinside.mem_sites hpair
        obtain ⟨hotherOpen, -⟩ := hbehind.mem_sites hother
        exact ⟨hacross _ hopen _ (List.mem_cons_of_mem _ hotherOpen),
          .inl (hacross _ hclose _ (List.mem_cons_of_mem _ hotherOpen))⟩

/-- The search from the first brace of a pair ends at the second. -/
theorem closer?_of_mem (h : Nested sites pairs) {pair : Site Token × Site Token} (hpair : pair ∈ pairs)
    (rest : List (Site Token)) :
    ∃ earlier later, sites ++ rest = earlier ++ pair.1 :: later ∧
      closer? 0 (pair.1 :: later) = some pair.2 := by
  obtain ⟨earlier, inner, others, later, rfl, hopens, hcloses, hinner⟩ := h.exists_of_mem hpair
  refine ⟨earlier, inner ++ pair.2 :: (later ++ rest), by simp, ?_⟩
  rw [closer?_opening hopens, hinner.closer?_append (by decide), closer?_closing hcloses]
  rfl

end Nested

end Token

/-! ### The pairs of a block -/

/-- Pairs of offsets by which `find` assigns the `closes` to the `opens`. -/
structure Pairing (find : Nat → Option Nat) (opens closes : Set Nat) (pairs : List (Nat × Nat)) :
    Prop where
  opens : ∀ offset, offset ∈ opens ↔ ∃ pair ∈ pairs, pair.1 = offset
  closes : ∀ offset, offset ∈ closes ↔ ∃ pair ∈ pairs, pair.2 = offset
  find : ∀ pair ∈ pairs, find pair.1 = some pair.2
  behind : ∀ pair ∈ pairs, pair.1 < pair.2
  nests : pairs.Pairwise fun pair other => pair.1 < other.1 ∧ (pair.2 < other.1 ∨ other.2 < pair.2)

namespace Pairing

variable {find : Nat → Option Nat} {opens closes : Set Nat} {pairs : List (Nat × Nat)}

theorem laminar (h : Pairing find opens closes pairs) : ∀ pair ∈ pairs, ∀ other ∈ pairs,
    pair.1 < other.1 → pair.2 < other.1 ∨ other.2 < pair.2 := by
  refine List.Pairwise.forall_of_forall_of_flip ?_ ?_ ?_
  · exact fun pair _ hbefore => absurd hbefore (lt_irrefl _)
  · exact h.nests.imp fun hnests _ => hnests.2
  · exact h.nests.imp fun hnests hbefore => absurd hbefore (lt_asymm hnests.1)

theorem mapsTo (h : Pairing find opens closes pairs) : Set.MapsTo find opens (some '' closes) := by
  intro offset hoffset
  obtain ⟨pair, hpair, rfl⟩ := (h.opens offset).mp hoffset
  exact ⟨pair.2, (h.closes pair.2).mpr ⟨pair, hpair, rfl⟩, (h.find pair hpair).symm⟩

/-- Two pairs with one end lie neither apart nor one inside the other. -/
theorem injOn (h : Pairing find opens closes pairs) : Set.InjOn find opens := by
  intro offset hoffset offset' hoffset' hfind
  obtain ⟨pair, hpair, rfl⟩ := (h.opens offset).mp hoffset
  obtain ⟨other, hother, rfl⟩ := (h.opens offset').mp hoffset'
  rw [h.find pair hpair, h.find other hother] at hfind
  have hclose : pair.2 = other.2 := Option.some.inj hfind
  have hbehind := h.behind pair hpair
  have hotherBehind := h.behind other hother
  rcases lt_trichotomy pair.1 other.1 with hbefore | hsame | hafter
  · have hnests := h.laminar pair hpair other hother hbefore
    omega
  · exact hsame
  · have hnests := h.laminar other hother pair hpair hafter
    omega

theorem surjOn (h : Pairing find opens closes pairs) : Set.SurjOn find opens (some '' closes) := by
  rintro _ ⟨offset, hoffset, rfl⟩
  obtain ⟨pair, hpair, rfl⟩ := (h.closes offset).mp hoffset
  exact ⟨pair.1, (h.opens pair.1).mpr ⟨pair, hpair, rfl⟩, h.find pair hpair⟩

theorem bijOn (h : Pairing find opens closes pairs) : Set.BijOn find opens (some '' closes) :=
  ⟨h.mapsTo, h.injOn, h.surjOn⟩

end Pairing

namespace Token

variable {front opened : Text} {close : Nat}

/-- The offsets of the tokens of a kind, in a text that is read behind `front`, through `close`. -/
def offsets (kind : Kind) (front ahead : Text) (close : Nat) : Set Nat :=
  {offset | ∃ site ∈ sites ahead, site.content.kind = kind ∧
    offset = front.byteSize + site.offset ∧ offset ≤ close}

theorem offset_behind (front : Text) (site : Site Token) :
    (site.behind front).offset = front.byteSize + site.offset := by
  rw [Site.offset, Site.behind, Text.byteSize_append, Text.byteSize_reverse, Nat.add_comm]
  rfl

/-- Tokens stand one behind the other. -/
theorem pairwise_offset (before ahead : Text) :
    (scanFrom move 0 before ahead).Pairwise (·.offset < ·.offset) := by
  refine (pairwise_scanFrom move 0 before ahead).imp fun ⟨c, passed, hbefore⟩ => ?_
  rw [Site.offset, Site.offset, ← hbefore, Text.byteSize_append, Text.byteSize]
  have hsize : 0 < c.utf8Size := c.utf8Size_pos
  omega

/-- Where the tokens through `close` are parted from the others. -/
theorem mem_offsets_iff {kind : Kind} {ahead : Text} {sites rest : List (Site Token)} {offset : Nat}
    (hscan : scanFrom move 0 front.reverse ahead = sites ++ rest)
    (hinside : ∀ site ∈ sites, site.offset ≤ close) (hbehind : ∀ site ∈ rest, close < site.offset) :
    offset ∈ offsets kind front ahead close ↔
      ∃ site, (site ∈ sites ∧ site.content.kind = kind) ∧ site.offset = offset := by
  rw [scanFrom_reverse] at hscan
  constructor
  · rintro ⟨site, hsite, hkind, rfl, hclose⟩
    rw [← offset_behind] at hclose
    have hmem : site.behind front ∈ sites ++ rest := hscan ▸ List.mem_map_of_mem hsite
    refine ⟨site.behind front, ⟨?_, hkind⟩, offset_behind front site⟩
    rcases List.mem_append.mp hmem with hmem | hmem
    · exact hmem
    · exact absurd (hbehind _ hmem) (not_lt_of_ge hclose)
  · rintro ⟨_, ⟨hmem, hkind⟩, rfl⟩
    have hmapped := hscan ▸ List.mem_append_left rest hmem
    obtain ⟨site, hsite, rfl⟩ := List.mem_map.mp hmapped
    exact ⟨site, hsite, hkind, offset_behind front site, hinside _ hmem⟩

/-- The tokens of a closed block: its two braces and what stands between them. -/
theorem exists_block (h : closingBrace? (front ++ '{' :: opened) front.byteSize = some close) :
    ∃ sites pairs rest, scanFrom move 0 front.reverse ('{' :: opened) = sites ++ rest ∧
      Nested sites pairs ∧ (∀ site ∈ sites, site.offset ≤ close) ∧
      ∀ site ∈ rest, close < site.offset := by
  have hscan : scanFrom move 0 front.reverse ('{' :: opened) =
      ⟨front.reverse, ⟨.opening, ['{']⟩⟩ :: scanFrom move 0 ('{' :: front.reverse) opened := rfl
  generalize hopening : (⟨front.reverse, ⟨.opening, ['{']⟩⟩ : Site Token) = opening at hscan
  have hopens : opening.content.kind = .opening := hopening ▸ rfl
  have hfirst : opening.offset = front.byteSize := hopening ▸ Text.byteSize_reverse front
  have hsearch := closingBrace?_of_mem_sites (hscan.trans (List.nil_append _).symm)
  rw [hfirst, h, closer?_opening hopens] at hsearch
  obtain ⟨site, hsite, rfl⟩ := Option.map_eq_some_iff.mp hsearch.symm
  obtain ⟨inner, pairs, closing, rest, hinner, hnested, hcloses, hclosing⟩ :=
    Nested.exists_of_closer? (by decide) hsite
  rw [closer?_closing hcloses, if_pos (by decide)] at hclosing
  obtain rfl := Option.some.inj hclosing
  rw [hinner] at hscan
  have hsorted := pairwise_offset front.reverse ('{' :: opened)
  rw [hscan, ← List.cons_append] at hsorted
  obtain ⟨-, hlater, hacross⟩ := List.pairwise_append.mp hsorted
  refine ⟨opening :: (inner ++ [closing]), _, rest, by simp [hscan],
    .block hopens hcloses hnested .nil, fun site hsite => ?_, (List.pairwise_cons.mp hlater).1⟩
  rw [← List.cons_append] at hsite
  rcases List.mem_append.mp hsite with hsite | hsite
  · exact le_of_lt (hacross site hsite closing List.mem_cons_self)
  · exact List.mem_singleton.mp hsite ▸ le_refl _

theorem exists_pairing (h : closingBrace? (front ++ '{' :: opened) front.byteSize = some close) :
    ∃ pairs, Pairing (closingBrace? (front ++ '{' :: opened))
      (offsets .opening front ('{' :: opened) close) (offsets .closing front ('{' :: opened) close)
      pairs := by
  obtain ⟨sites, pairs, rest, hscan, hnested, hinside, hbehind⟩ := exists_block h
  have hsorted : sites.Pairwise (·.offset < ·.offset) := by
    have hall := pairwise_offset front.reverse ('{' :: opened)
    rw [hscan] at hall
    exact (List.pairwise_append.mp hall).1
  refine ⟨pairs.map fun pair => (pair.1.offset, pair.2.offset), ?_, ?_, ?_, ?_, ?_⟩
  · intro offset
    simp only [mem_offsets_iff hscan hinside hbehind, hnested.opening_iff, List.mem_map,
      exists_exists_and_eq_and]
  · intro offset
    simp only [mem_offsets_iff hscan hinside hbehind, hnested.closing_iff, List.mem_map,
      exists_exists_and_eq_and]
  · refine List.forall_mem_map.mpr fun pair hpair => ?_
    obtain ⟨earlier, later, hsplit, hcloser⟩ := hnested.closer?_of_mem hpair rest
    rw [closingBrace?_of_mem_sites (hscan.trans hsplit), hcloser]
    rfl
  · refine List.forall_mem_map.mpr fun pair hpair => ?_
    obtain ⟨earlier, inner, others, later, rfl, -, -, -⟩ := hnested.exists_of_mem hpair
    have hpartners := (List.pairwise_append.mp hsorted).2.1
    exact (List.pairwise_cons.mp hpartners).1 pair.2 (by simp)
  · exact List.pairwise_map.mpr (hnested.pairwise hsorted)

end Token

/-- **Nested blocks.** Where an opening brace is closed, searches assign the closing braces of the block
to its opening braces one to one. Each search ends behind its own brace, and of two blocks the later
one begins behind the earlier one or ends inside of it. -/
theorem blocks_nest {front opened : Text} {close : Nat}
    (h : closingBrace? (front ++ '{' :: opened) front.byteSize = some close) :
    let find := closingBrace? (front ++ '{' :: opened)
    let opens := Token.offsets .opening front ('{' :: opened) close
    let closes := Token.offsets .closing front ('{' :: opened) close
    Set.BijOn find opens (some '' closes) ∧
      (∀ start ∈ opens, ∀ last ∈ find start, start < last) ∧
      ∀ start ∈ opens, ∀ later ∈ opens, start < later →
        ∀ last ∈ find start, ∀ laterLast ∈ find later, last < later ∨ laterLast < last := by
  intro find opens closes
  obtain ⟨pairs, hpairing⟩ := Token.exists_pairing h
  refine ⟨hpairing.bijOn, fun start hstart last hlast => ?_, ?_⟩
  · obtain ⟨pair, hpair, rfl⟩ := (hpairing.opens start).mp hstart
    obtain rfl := Option.some.inj ((hpairing.find pair hpair).symm.trans hlast)
    exact hpairing.behind pair hpair
  · intro start hstart later hlater hbefore last hlast laterLast hlaterLast
    obtain ⟨pair, hpair, rfl⟩ := (hpairing.opens start).mp hstart
    obtain ⟨other, hother, rfl⟩ := (hpairing.opens later).mp hlater
    obtain rfl := Option.some.inj ((hpairing.find pair hpair).symm.trans hlast)
    obtain rfl := Option.some.inj ((hpairing.find other hother).symm.trans hlaterLast)
    exact hpairing.laminar pair hpair other hother hbefore

/-- A block in a block and one behind it, with a closing brace in a comment, and braces without
partners behind the block around them. -/
def blocked : Text :=
  "a\x7b/*\x7d*/b\x7b\x7d\x7d/\x7b\x7d\x7dc\x7b".toList

theorem blocks_nest_blocked :
    let front := "é\x7d".toList
    let find := closingBrace? (front ++ '{' :: blocked)
    find 3 = some 18 ∧ find 5 = some 14 ∧ find 12 = some 13 ∧
      Set.BijOn find (Token.offsets .opening front ('{' :: blocked) 18)
        (some '' Token.offsets .closing front ('{' :: blocked) 18) := by
  intro front find
  exact ⟨by decide, by decide, by decide, (blocks_nest (by decide)).1⟩

end Stylesheet
