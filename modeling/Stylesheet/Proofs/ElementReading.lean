import Mathlib.Data.List.Basic
import Stylesheet.Proofs.Keywords
import Stylesheet.Proofs.RuleReading

/-!
# Reading written elements

An element without its comments is taken whole by the scan for its kind and passed over whole by the
other scans.
-/

namespace Stylesheet

/-- An element of a kind as it is written, from its first character to the one that ends it. -/
structure Kind.Core (kind : Kind) (core : Text) : Prop where
  ends : ∃ front c, core = front ++ [c] ∧ isBlank c = false ∧ c ≠ '/'
  lacks : ∀ other name, other ≠ kind → other.name? = some name → Lacks name core
  passes : kind ≠ .styles → Passes StyleRule.move core

namespace Kind.Core

variable {kind : Kind} {core : Text}

theorem ne_nil (h : kind.Core core) : core ≠ [] := by
  obtain ⟨front, c, rfl, -⟩ := h.ends
  exact List.append_ne_nil_of_right_ne_nil front (List.cons_ne_nil c [])

theorem bare (h : kind.Core core) (adjacency : Adjacency) (before : Text) :
    adjacency.Bare (core.reverse ++ before) := by
  obtain ⟨front, c, rfl, hblank, hslash⟩ := h.ends
  rw [List.reverse_append, List.append_assoc]
  exact Adjacency.bare_cons hblank hslash _

end Kind.Core

/-- A written element is taken as a whole, whatever follows it. -/
def Takes {α β γ : Type} (move : Text → Move α) (f : α → β) (write : γ → Text) (value : γ → β)
    (content : γ → Prop) : Prop :=
  ∀ element, content element → ∀ rest, ∃ found,
    move (write element ++ rest) = .take found (write element).length ∧ f found = value element

namespace StyleRule

theorem passes_feed : Passes move ['\n'] :=
  .of_move (List.cons_ne_nil _ _) fun _ => move_blank (by decide)

/-- A comment is passed over whole. -/
theorem passes_comment {body : Text} (h : ¬['*', '/'] <:+: body) :
    Passes move ("/*".toList ++ body ++ "*/".toList) := by
  refine .of_move (List.cons_ne_nil _ _) fun rest => ?_
  have htext : "/*".toList ++ body ++ "*/".toList ++ rest =
      '/' :: '*' :: (body ++ '*' :: '/' :: rest) := by simp
  rw [htext, move_comment, Comment.pattern, Comment.body?_append h]
  simp [passOver, Reading.text]

theorem passes_written {entry : Text} (h : Comment.Canonical entry) :
    Passes move (Comment.written entry) := by
  have htext : Comment.written entry =
      "/*".toList ++ (' ' :: entry ++ [' ']) ++ "*/".toList ++ ['\n'] := by
    simp [Comment.written, Comment.block]
  rw [htext]
  exact (passes_comment (Comment.not_closer_pad h.closer)).append passes_feed

theorem skips : Skips move where
  comments _ := passes_written
  feed := passes_feed

theorem passes_atRule {body : Text}
    (h : ∀ rest, atRule? ('@' :: body ++ rest) = some ('@' :: body, rest)) :
    Passes move ('@' :: body) := by
  refine .of_move (List.cons_ne_nil _ _) fun rest => ?_
  rw [List.cons_append, move_atRule]
  exact congrArg passOver (h rest)

/-- What is read as a selector when an opening brace follows it. -/
structure Selects (selector : Text) : Prop where
  opening : '{' ∉ selector
  trim_ne_nil : selector.trim ≠ []
  begins : ∀ c ∈ selector.head?, isBlank c = false ∧ c ≠ '@'
  comment : ¬['/', '*'] <+: selector

/-- A selector and an enclosed interior are taken as a rule, whatever follows. -/
theorem Selects.move_eq {selector interior : Text} (h : Selects selector)
    (hinterior : Enclosed interior) (rest : Text) :
    move (selector ++ ('{' :: interior ++ ['}']) ++ rest) =
      .take ⟨selector.trim, Declaration.splitStripped interior⟩
        (selector ++ ('{' :: interior ++ ['}'])).length := by
  have htext : selector ++ ('{' :: interior ++ ['}']) ++ rest =
      selector ++ '{' :: (interior ++ '}' :: rest) := by
    simp
  have hlength : selector.length + interior.length + 2 =
      (selector ++ ('{' :: interior ++ ['}'])).length := by
    simp only [List.length_append, List.length_cons, List.length_nil]
    omega
  have hread : readRule (selector ++ '{' :: (interior ++ '}' :: rest)) =
      .take ⟨selector.trim, Declaration.splitStripped interior⟩
        (selector ++ ('{' :: interior ++ ['}'])).length := by
    have hempty : ¬selector.trim.isEmpty = true := by
      simpa using h.trim_ne_nil
    rw [readRule, Text.cut?_append_cons h.opening]
    simp only [hempty, hinterior.interior?_eq, hlength, Bool.false_eq_true, if_false]
  have hne : selector ≠ [] := by
    rintro rfl
    exact h.trim_ne_nil rfl
  obtain ⟨c, others, rfl⟩ := List.exists_cons_of_ne_nil hne
  obtain ⟨hblank, hat⟩ := h.begins c rfl
  have hnext : c = '/' → (others ++ '{' :: (interior ++ '}' :: rest)).head? ≠ some '*' := by
    rintro rfl hhead
    cases others with
    | nil => exact absurd (Option.some.inj hhead) (by decide)
    | cons d others =>
        obtain rfl := Option.some.inj hhead
        exact h.comment ⟨others, rfl⟩
  rw [htext, ← hread]
  exact move_readRule hblank hat hnext

end StyleRule

section Cores

variable {kind : Kind} {name value interior : Text}

/-- What may stand in an at-rule before the character that ends it or opens its block. -/
structure Heading (text : Text) : Prop where
  at_sign : '@' ∉ text
  opening : '{' ∉ text
  semicolon : ';' ∉ text

theorem Heading.append {front back : Text} (hfront : Heading front) (hback : Heading back) :
    Heading (front ++ back) where
  at_sign hmem := (List.mem_append.mp hmem).elim hfront.at_sign hback.at_sign
  opening hmem := (List.mem_append.mp hmem).elim hfront.opening hback.opening
  semicolon hmem := (List.mem_append.mp hmem).elim hfront.semicolon hback.semicolon

theorem Kind.heading_name (h : kind.name? = some name) : Heading name := by
  cases kind <;> cases h <;> exact ⟨by decide, by decide, by decide⟩

theorem Heading.not_ends (hname : Heading name) (hvalue : Heading value) :
    ∀ c ∈ '@' :: name ++ value, (c ≠ ';' && c ≠ '{') = true := by
  intro c hc
  have hheading := hname.append hvalue
  rcases List.mem_cons.mp hc with rfl | hmem
  · decide
  · have hsemicolon : c ≠ ';' := ne_of_mem_of_not_mem hmem hheading.semicolon
    have hopening : c ≠ '{' := ne_of_mem_of_not_mem hmem hheading.opening
    simp [hsemicolon, hopening]

theorem Kind.lacks_keyword (hname : kind.name? = some name) {other : Kind} {word : Text}
    (hne : other ≠ kind) (hword : other.name? = some word) : Lacks word ('@' :: name) :=
  .keyword (heading_name hname).at_sign (not_isPrefix hne.symm hword hname)

theorem Kind.Core.directive (hname : kind.name? = some name) (hvalue : Heading value) :
    kind.Core ('@' :: name ++ value ++ [';']) where
  ends := ⟨'@' :: name ++ value, ';', rfl, by decide, by decide⟩
  lacks other word hne hword := by
    have hkeyword := Kind.lacks_keyword hname hne hword
    exact (hkeyword.append (.of_not_mem hvalue.at_sign)).append (.of_not_mem (by decide))
  passes _ := by
    refine StyleRule.passes_atRule fun rest => atRule?_eq_some_iff.mpr ?_
    exact ⟨'@' :: name ++ value, (Kind.heading_name hname).not_ends hvalue,
      .inl ⟨by simp, by simp⟩⟩

theorem Kind.Core.block (hname : kind.name? = some name) (hvalue : Heading value)
    (hinterior : Balanced interior)
    (hlacks : ∀ other word, other ≠ kind → other.name? = some word → Lacks word interior) :
    kind.Core ('@' :: name ++ value ++ ('{' :: interior ++ ['}'])) where
  ends := ⟨'@' :: name ++ value ++ '{' :: interior, '}', by simp, by decide, by decide⟩
  lacks other word hne hword := by
    have hkeyword := Kind.lacks_keyword hname hne hword
    have hopening : Lacks word ['{'] := .of_not_mem (by decide)
    have hclosing : Lacks word ['}'] := .of_not_mem (by decide)
    have hbraces := (hopening.append (hlacks other word hne hword)).append hclosing
    exact (hkeyword.append (.of_not_mem hvalue.at_sign)).append hbraces
  passes _ := by
    refine StyleRule.passes_atRule fun rest => atRule?_eq_some_iff.mpr ?_
    exact ⟨'@' :: name ++ value, (Kind.heading_name hname).not_ends hvalue,
      .inr ⟨interior ++ '}' :: rest, interior, by simp, hinterior.interior?_eq rest, by simp⟩⟩

end Cores

theorem Pattern.move_of_form {pattern : Pattern} {form : Text → Text → Text → Prop}
    (hreads : pattern.Reads form) {lead value tail : Text} (hform : form lead value tail)
    (rest : Text) : pattern.move (lead ++ value ++ tail ++ rest) =
      .take ⟨lead, value, tail, rest⟩ (lead ++ value ++ tail).length := by
  rw [move, hreads.of_form hform rest]
  rfl

namespace Directive

variable {kind : Kind} {name value : Text} {mark : Char}

theorem heading_mark (h : isQuote mark = true) : Heading [mark] := by
  simp only [isQuote, Bool.or_eq_true, decide_eq_true_eq] at h
  rcases h with rfl | rfl <;> exact ⟨by decide, by decide, by decide⟩

theorem CanonicalQuoted.core_render (h : CanonicalQuoted value) (hname : kind.name? = some name)
    (hmark : isQuote mark = true) : kind.Core (renderQuoted ('@' :: name) mark value) := by
  have hspace : Heading [' '] := ⟨by decide, by decide, by decide⟩
  have hvalue : Heading value := ⟨h.at_sign, h.opening, h.semicolon⟩
  have hcore : kind.Core ('@' :: name ++ ([' '] ++ [mark] ++ value ++ [mark]) ++ [';']) := by
    apply Kind.Core.directive hname
    exact ((hspace.append (heading_mark hmark)).append hvalue).append (heading_mark hmark)
  simpa [renderQuoted] using hcore

theorem takes_quoted (keyword : Text) (spaced : Bool) (mark : Char) (hmark : isQuote mark = true) :
    Takes (quoted keyword spaced).move Reading.value (renderQuoted keyword mark) id
      CanonicalQuoted := by
  intro value h rest
  have hquote : ∀ c ∈ value, isQuote c = false := by
    simpa using h.quote
  have hform : QuotedForm keyword spaced (keyword ++ [' '] ++ [mark]) value ([mark] ++ [] ++ [';']) :=
    ⟨⟨[' '], mark, rfl, blank_space, fun _ => List.cons_ne_nil _ _, hmark⟩, h.ne_nil, hquote,
      mark, [], rfl, hmark, List.forall_mem_nil _⟩
  have hmove := Pattern.move_of_form (quoted_reads keyword spaced) hform rest
  have htext : keyword ++ [' '] ++ [mark] ++ value ++ ([mark] ++ [] ++ [';']) =
      renderQuoted keyword mark value := by
    simp [renderQuoted]
  rw [htext] at hmove
  exact ⟨_, hmove, rfl⟩

theorem renderTailwind_eq (value : Text) : renderTailwind value =
    '@' :: "tailwind".toList ++ [' '] ++ value ++ [';'] :=
  have hkeyword : "@tailwind ".toList = '@' :: "tailwind".toList ++ [' '] := rfl
  congrArg (· ++ value ++ [';']) hkeyword

theorem CanonicalWord.core_render (h : CanonicalWord value) :
    Kind.tailwind.Core (renderTailwind value) := by
  have hspace : Heading [' '] := ⟨by decide, by decide, by decide⟩
  have hvalue : Heading value :=
    ⟨Text.not_mem_of_all h.word rfl, Text.not_mem_of_all h.word rfl,
      Text.not_mem_of_all h.word rfl⟩
  have hcore : Kind.tailwind.Core ('@' :: "tailwind".toList ++ ([' '] ++ value) ++ [';']) :=
    .directive rfl (hspace.append hvalue)
  rwa [← List.append_assoc, ← renderTailwind_eq] at hcore

theorem takes_tailwind : Takes tailwind.move Reading.value renderTailwind id CanonicalWord := by
  intro value h rest
  have hform : Pattern.WordForm "@tailwind".toList false isWordChar ';'
      ('@' :: "tailwind".toList ++ [' ']) value ([] ++ [';']) :=
    ⟨⟨[' '], rfl, blank_space, fun _ => List.cons_ne_nil _ _⟩, h.ne_nil,
      List.all_eq_true.mp h.word, [], rfl, List.forall_mem_nil _⟩
  have hmove := Pattern.move_of_form tailwind_reads hform rest
  rw [List.nil_append, ← renderTailwind_eq] at hmove
  exact ⟨_, hmove, rfl⟩

end Directive

/-- A block at-rule from its keyword to its closing brace. -/
def blockCore (name value interior : Text) : Text :=
  '@' :: name ++ ([' '] ++ value ++ [' ']) ++ ('{' :: ('\n' :: (interior ++ ['\n'])) ++ ['}'])

theorem renderBlock_eq (name value interior : Text) :
    renderBlock ('@' :: name) value interior = blockCore name value interior ++ ['\n'] := by
  simp [renderBlock, blockCore]

theorem balanced_lines {interior : Text} (h : Balanced interior) :
    Balanced ('\n' :: (interior ++ ['\n'])) := by
  have hfeed : Balanced ['\n'] := .of_blank blank_feed
  exact hfeed.append (h.append hfeed)

theorem Kind.Core.blockCore {kind : Kind} {name value interior : Text}
    (hname : kind.name? = some name) (hvalue : Heading value) (hinterior : Balanced interior)
    (hlacks : ∀ other word, other ≠ kind → other.name? = some word → Lacks word interior) :
    kind.Core (blockCore name value interior) := by
  have hspace : Heading [' '] := ⟨by decide, by decide, by decide⟩
  apply Kind.Core.block hname ((hspace.append hvalue).append hspace) (balanced_lines hinterior)
  intro other word hne hword
  have hnone : Lacks word ['\n'] := .of_not_mem (by decide)
  exact hnone.append ((hlacks other word hne hword).append hnone)

theorem Block.move_blockCore {header : Pattern} {form : Text → Text → Text → Prop}
    (hreads : header.Reads form) {name value interior word tail : Text}
    (hform : form ('@' :: name ++ [' ']) word tail) (hsplit : word ++ tail = value ++ [' ', '{'])
    (hinterior : Balanced interior) (rest : Text) :
    ∃ found, Block.move header (blockCore name value interior ++ rest) =
        .take found (blockCore name value interior).length ∧
      found.header.value = word ∧ found.interior = '\n' :: (interior ++ ['\n']) := by
  have hmove := Block.move_of_form hreads hform (balanced_lines hinterior).enclosed rest
  have hhead : ∀ more, '@' :: name ++ [' '] ++ word ++ tail ++ more =
      '@' :: name ++ ([' '] ++ value ++ [' ']) ++ '{' :: more := by
    intro more
    rw [List.append_assoc _ word tail, hsplit]
    simp
  rw [hhead, List.append_assoc _ _ ['}'], hhead] at hmove
  have htext : blockCore name value interior ++ rest =
      '@' :: name ++ ([' '] ++ value ++ [' ']) ++
        '{' :: ('\n' :: (interior ++ ['\n']) ++ '}' :: rest) := by
    simp [blockCore]
  rw [htext]
  exact ⟨_, hmove, rfl, rfl⟩

namespace Keyframes

variable {keyframes : Keyframes}

def core (keyframes : Keyframes) : Text :=
  blockCore "keyframes".toList keyframes.name (keyframes.steps.flatMap Rule.renderInner)

theorem render_eq (keyframes : Keyframes) : keyframes.render = keyframes.core ++ ['\n'] :=
  renderBlock_eq _ _ _

theorem balanced_step {step : Rule} (h : step.CanonicalStep) : Balanced step.renderInner := by
  apply Rule.balanced_renderInner fun declaration hmem => (h.declarations declaration hmem).1
  · exact Text.not_mem_of_all h.selector rfl
  · exact Text.not_mem_of_all h.selector rfl
  · exact not_pair_of_not_mem (Text.not_mem_of_all h.selector rfl)

theorem Canonical.core (h : keyframes.Canonical) : Kind.keyframes.Core keyframes.core := by
  have hheading : Heading keyframes.name :=
    ⟨Text.not_mem_of_all h.name rfl, Text.not_mem_of_all h.name rfl,
      Text.not_mem_of_all h.name rfl⟩
  have hsteps : Balanced (keyframes.steps.flatMap Rule.renderInner) :=
    .flatMap fun step hstep => balanced_step (h.steps step hstep)
  apply Kind.Core.blockCore rfl hheading hsteps
  intro other word _ _
  apply Lacks.flatMap
  intro step hmem
  have hstep := h.steps step hmem
  have hselector : '@' ∉ step.selector := Text.not_mem_of_all hstep.selector rfl
  exact .of_not_mem (Rule.at_not_mem_renderInner
    (fun declaration hmem => (hstep.declarations declaration hmem).1) hselector)

theorem takes_core : Takes (Block.move header) ofBlock core id Keyframes.Canonical := by
  intro keyframes h rest
  have hform : Pattern.WordForm "@keyframes".toList true isNameChar '{'
      ('@' :: "keyframes".toList ++ [' ']) keyframes.name ([' '] ++ ['{']) :=
    ⟨⟨[' '], rfl, blank_space, fun _ => List.cons_ne_nil _ _⟩, h.name_ne_nil,
      List.all_eq_true.mp h.name, [' '], rfl, blank_space⟩
  have hsteps : Balanced (keyframes.steps.flatMap Rule.renderInner) :=
    .flatMap fun step hstep => balanced_step (h.steps step hstep)
  obtain ⟨found, hmove, hname, hinterior⟩ :=
    Block.move_blockCore header_reads hform rfl hsteps rest
  refine ⟨found, hmove, ?_⟩
  rw [ofBlock, hname, hinterior, stepsOf_render h.steps]
  rfl

end Keyframes

/-- The text of a nested at-rule in which nothing but media blocks could be found. -/
structure MediaRule.Nestable (text : Text) : Prop where
  shell : MediaRule.Shell text
  lacks : ∀ other word, other ≠ Kind.media → other.name? = some word → Lacks word text

theorem MediaRule.Canonical.imp {δ : Type} {nested weaker : δ → Prop} {rule : MediaRule δ}
    (h : rule.Canonical nested) (himp : ∀ document, nested document → weaker document) :
    rule.Canonical weaker := by
  cases rule with
  | style rule => exact h
  | atRule document => exact himp document h

namespace MediaBlock

variable {block : MediaBlock Text}

def core (block : MediaBlock Text) : Text :=
  blockCore "media".toList block.query (block.rules.flatMap MediaRule.render)

theorem render_eq (block : MediaBlock Text) : block.render = block.core ++ ['\n'] :=
  renderBlock_eq _ _ _

theorem balanced_rule {rule : MediaRule Text} (h : rule.Canonical MediaRule.Shell) :
    Balanced rule.render := by
  cases rule with
  | style rule =>
      exact Rule.balanced_renderInner h.declarations h.selector_plain.opening
        h.selector_plain.closing h.selector_plain.comment
  | atRule text =>
      obtain ⟨lead, run, interior, trail, rfl, hlead, htrail, -, hrun, hinterior⟩ := h
      have hheader : Balanced ('@' :: run) := by
        have hslash : '/' ∉ '@' :: run := by
          simpa using Text.not_mem_of_forall hrun rfl
        apply Balanced.of_not_mem _ _ (not_pair_of_not_mem hslash)
          (fun hlast => hslash (List.mem_of_getLast? hlast))
        · simpa using Text.not_mem_of_forall hrun rfl
        · simpa using Text.not_mem_of_forall hrun rfl
      have hatRule : Balanced (MediaRule.atRuleText run interior) := hheader.append hinterior.braces
      have hfeed : Balanced ['\n'] := .of_blank blank_feed
      exact (((Balanced.of_blank hlead).append hatRule).append (.of_blank htrail)).append hfeed

theorem balanced_rules (h : block.Canonical MediaRule.Nestable) :
    Balanced (block.rules.flatMap MediaRule.render) :=
  .flatMap fun rule hrule => balanced_rule ((h.rules rule hrule).imp fun _ => MediaRule.Nestable.shell)

theorem Canonical.core (h : block.Canonical MediaRule.Nestable) : Kind.media.Core block.core := by
  have hheading : Heading block.query :=
    ⟨h.query_plain.at_sign, h.query_plain.opening, h.query_plain.semicolon⟩
  apply Kind.Core.blockCore rfl hheading (balanced_rules h)
  intro other word hne hword
  apply Lacks.flatMap
  intro rule hmem
  have hrule := h.rules rule hmem
  cases rule with
  | style rule =>
      exact .of_not_mem (Rule.at_not_mem_renderInner hrule.declarations hrule.selector_plain.at_sign)
  | atRule text => exact (hrule.lacks other word hne hword).append (.of_not_mem (by decide))

theorem takes_core : Takes (Block.move header) ofBlock core (MediaBlock.map Text.trim)
    (MediaBlock.Canonical MediaRule.Nestable) := by
  intro block h rest
  have hhead : ∀ c ∈ (block.query ++ [' ']).head?, isBlank c = false := by
    obtain ⟨c, query, hquery⟩ := List.exists_cons_of_ne_nil h.query_ne_nil
    have htrimmed := h.query_trimmed
    rw [hquery] at htrimmed ⊢
    simpa using htrimmed.not_isBlank
  have hsplit : block.query ++ [' '] ++ ['{'] = block.query ++ [' ', '{'] :=
    List.append_assoc _ _ _
  have hform : HeaderForm ('@' :: "media".toList ++ [' ']) (block.query ++ [' ']) ['{'] :=
    ⟨⟨[' '], rfl, blank_space, List.cons_ne_nil _ _⟩, .inl ⟨by simp, hhead⟩,
      by simpa using h.query_plain.opening, rfl⟩
  have hrules : ∀ rule ∈ block.rules, rule.Canonical MediaRule.Shell := fun rule hrule =>
    (h.rules rule hrule).imp fun _ => MediaRule.Nestable.shell
  obtain ⟨found, hmove, hquery, hinterior⟩ :=
    Block.move_blockCore header_reads hform hsplit (balanced_rules h) rest
  have htrim : Text.trim (block.query ++ [' ']) = block.query :=
    h.query_trimmed.trim_pad (List.forall_mem_nil _) blank_space
  refine ⟨found, hmove, ?_⟩
  rw [ofBlock, hquery, hinterior, rulesOf_render hrules, htrim, MediaBlock.map]

end MediaBlock

namespace Rule

variable {rule : Rule}

theorem core_block (h : '@' ∉ rule.block 1 []) : Kind.styles.Core (rule.block 1 []) where
  ends := ⟨rule.selector ++ [' '] ++ '{' :: rule.interior 1 [], '}', by simp [block], by decide,
    by decide⟩
  lacks other word _ _ := .of_not_mem h
  passes hne := absurd rfl hne

theorem Canonical.core (h : rule.Canonical) : Kind.styles.Core (rule.block 1 []) := by
  apply core_block
  have hpieces : ∀ declaration ∈ rule.declarations, '@' ∉ declaration.piece :=
    fun declaration hmem => (h.declarations declaration hmem).at_not_mem_piece
  exact at_not_mem_block h.selector_plain.at_sign hpieces 1 List.not_mem_nil

/-- A rule whose block, as it is written, is taken as a whole and read as the rule. -/
structure Readable (rule : Rule) : Prop where
  selector_ne_nil : rule.selector ≠ []
  selector_trimmed : Text.Trimmed rule.selector
  opening : '{' ∉ rule.selector
  at_sign : rule.selector.head? ≠ some '@'
  comment : ¬['/', '*'] <+: rule.selector
  closes : interior? (rule.interior 1 [] ++ ['}']) = some (rule.interior 1 [], [])
  declarations : ∀ declaration ∈ rule.declarations, declaration.Separable

theorem Canonical.readable (h : rule.Canonical) : rule.Readable where
  selector_ne_nil := h.selector_ne_nil
  selector_trimmed := h.selector_trimmed
  opening := h.selector_plain.opening
  at_sign hhead := h.selector_plain.at_sign (List.mem_of_head? hhead)
  comment hprefix := h.selector_plain.comment hprefix.isInfix
  closes := (balanced_interior h.declarations 1 (List.forall_mem_nil _)).interior?_eq []
  declarations declaration hmem := (h.declarations declaration hmem).separable

theorem Readable.trim_selector (h : rule.Readable) :
    Text.trim (rule.selector ++ [' ']) = rule.selector :=
  h.selector_trimmed.trim_pad (List.forall_mem_nil _) blank_space

theorem Readable.selects (h : rule.Readable) : StyleRule.Selects (rule.selector ++ [' ']) where
  opening := by simpa using h.opening
  trim_ne_nil := by
    rw [h.trim_selector]
    exact h.selector_ne_nil
  begins := by
    intro c hc
    have hhead : rule.selector.head? = some c :=
      List.head?_append_of_ne_nil _ h.selector_ne_nil ▸ hc
    obtain ⟨others, hselector⟩ := List.head?_eq_some_iff.mp hhead
    have htrimmed := h.selector_trimmed
    rw [hselector] at htrimmed
    refine ⟨htrimmed.not_isBlank, ?_⟩
    rintro rfl
    exact h.at_sign hhead
  comment := by
    rintro ⟨rest, htext⟩
    have hcomment := h.comment
    cases hselector : rule.selector with
    | nil => exact h.selector_ne_nil hselector
    | cons c others =>
        rw [hselector] at htext hcomment
        obtain ⟨rfl, hothers⟩ := List.cons.inj htext
        cases others with
        | nil => exact absurd (List.cons.inj hothers).1 (by decide)
        | cons d others =>
            obtain rfl := (List.cons.inj hothers).1
            exact hcomment ⟨others, rfl⟩

theorem takes_readable : Takes StyleRule.move id (Rule.block 1 []) id Rule.Readable := by
  intro rule h rest
  refine ⟨rule, ?_, rfl⟩
  have hmove := h.selects.move_eq h.closes rest
  have hblock : rule.selector ++ [' '] ++ ('{' :: rule.interior 1 [] ++ ['}']) =
      rule.block 1 [] := by
    simp [block]
  have hdeclarations : Declaration.splitStripped (rule.interior 1 []) = rule.declarations :=
    Declaration.splitStripped_render h.declarations 1 blank_feed (List.forall_mem_nil _)
  rw [hblock, h.trim_selector, hdeclarations] at hmove
  exact hmove

theorem takes_block : Takes StyleRule.move id (Rule.block 1 []) id Rule.Canonical :=
  fun rule h rest => takes_readable rule h.readable rest

end Rule

end Stylesheet
