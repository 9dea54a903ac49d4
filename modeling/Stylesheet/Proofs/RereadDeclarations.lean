import Mathlib.Data.List.Basic
import Mathlib.Data.List.DropRight
import Stylesheet.Proofs.WellFormed

/-!
# Reading declarations again

Declarations that were read from a block and then written are read again as they were, in both ways
of reading. Of a list that was not read before, splitting gives back what was written. Matching gives
back a declaration only if its property consists of letters and hyphens, since a digit or an
underscore is no character of a name.
-/

namespace Stylesheet

theorem not_isSpace_of_isWordChar {c : Char} (h : isWordChar c = true ∨ c = '-') :
    isSpace c = false := by
  simp only [isWordChar, Bool.or_eq_true, decide_eq_true_eq, or_assoc] at h
  rcases h with halphanum | rfl | rfl
  · exact not_isSpace_of_isAlphanum halphanum
  · decide
  · decide

namespace Declaration

variable {declaration : Declaration} {declarations : List Declaration} {front piece rest : Text}

/-! ### What matching makes of a written declaration -/

/-- What matching finds of a written declaration: its value, with the part of its property behind
the last character that is none of a name. If there is no such part, then what is named in the
value. -/
def legible? (declaration : Declaration) : Option Declaration :=
  match declaration.property.rtakeWhile isNameChar with
  | [] => named? declaration.value
  | name => some ⟨name, declaration.value⟩

theorem namedAt?_of_dropWhile {c : Char} (h : piece.dropWhile isNameChar = c :: rest)
    (hblank : isBlank c = false) (hcolon : c ≠ ':') : namedAt? piece = none := by
  have hvalue : Text.after? ((piece.dropWhile isNameChar).dropWhile isBlank) [':'] = none := by
    rw [h, List.dropWhile_cons_of_neg (by simp [hblank]), Text.after?, if_neg hcolon]
  rw [namedAt?, hvalue]
  cases (piece.takeWhile isNameChar).isEmpty <;> rfl

/-- Nothing is named in a text of word characters and hyphens that does not end in a name. -/
theorem named?_append_word (hword : ∀ c ∈ front, isWordChar c = true ∨ c = '-')
    (hlast : ∀ c ∈ front.getLast?, isNameChar c = false) (rest : Text) :
    named? (front ++ rest) = named? rest := by
  refine named?_append fun passed ahead hsplit hne => ?_
  obtain ⟨ahead, last, rfl⟩ := (List.eq_nil_or_concat' ahead).resolve_left hne
  have hstop : isNameChar last = false := hlast last (by simp [hsplit])
  -- A run of name characters ends at the last character at the latest.
  have hdrop : (ahead ++ [last] ++ rest).dropWhile isNameChar =
      ahead.dropWhile isNameChar ++ last :: rest := by
    rw [List.append_assoc, List.singleton_append, Text.dropWhile_append_mark hstop]
  obtain ⟨c, more, hcons⟩ : ∃ c more, ahead.dropWhile isNameChar ++ last :: rest = c :: more :=
    List.exists_cons_of_ne_nil (by simp)
  have hmem : c ∈ front := by
    rcases Text.mem_or_eq_of_head?_append_cons (congrArg List.head? hcons) with hmem | rfl
    · have hahead : c ∈ ahead := (List.dropWhile_suffix _).subset hmem
      simp [hsplit, hahead]
    · simp [hsplit]
  have hname : isNameChar c = false := Text.not_of_dropWhile_eq_cons (hdrop.trans hcons)
  have hchar : isWordChar c = true := by
    refine (hword c hmem).resolve_right ?_
    rintro rfl
    exact absurd hname (by decide)
  refine namedAt?_of_dropWhile (hdrop.trans hcons) (Directive.not_isBlank_of_isWordChar hchar) ?_
  rintro rfl
  exact absurd hchar (by decide)

theorem named?_piece_eq_legible? (hword : ∀ c ∈ declaration.property, isWordChar c = true ∨ c = '-')
    (hvalue : Text.Trimmed declaration.value) :
    named? declaration.piece = legible? declaration := by
  have hproperty : declaration.property.rdropWhile isNameChar ++
      declaration.property.rtakeWhile isNameChar = declaration.property :=
    List.rdropWhile_append_rtakeWhile
  have hfront : ∀ c ∈ declaration.property.rdropWhile isNameChar, isWordChar c = true ∨ c = '-' :=
    fun c hc => hword c ((List.rdropWhile_prefix isNameChar _).subset hc)
  have hlast : ∀ c ∈ (declaration.property.rdropWhile isNameChar).getLast?, isNameChar c = false := by
    intro c hc
    obtain ⟨hne, rfl⟩ := List.mem_getLast?_eq_getLast hc
    simpa using List.rdropWhile_last_not isNameChar _ hne
  rw [piece_eq, ← hproperty, List.append_assoc, named?_append_word hfront hlast, legible?]
  split
  · next hname =>
      have hcolon : ∀ c ∈ [':', ' '], isNameChar c = false :=
        List.forall_mem_cons.mpr ⟨by decide, List.forall_mem_singleton.mpr (by decide)⟩
      rw [hname, List.nil_append]
      exact named?_append_of_forall hcolon declaration.value
  · next hne =>
      rw [named?_append_colon (fun c hc => List.mem_rtakeWhile_imp hc) hne, trim_space_cons, hvalue]

theorem property_of_named? {value : Text} (hvalue : ';' ∉ value)
    (h : named? value = some declaration) : ∀ c ∈ declaration.property, isNameChar c = true := by
  have hmatching : matching (value ++ [';']) = [declaration] := by
    rw [matching_append_cons hvalue, h, matching_of_not_mem List.not_mem_nil]
    rfl
  have hmem : declaration ∈ matching (value ++ [';']) := by
    rw [hmatching]
    exact List.mem_cons_self
  obtain ⟨_, -, hname, -⟩ := exists_of_mem_matching hmem
  exact hname

theorem legible?_eq_self_iff (hne : declaration.property ≠ []) (hvalue : ';' ∉ declaration.value) :
    legible? declaration = some declaration ↔ ∀ c ∈ declaration.property, isNameChar c = true := by
  constructor
  · intro h
    rw [legible?] at h
    split at h
    · exact property_of_named? hvalue h
    · have hwhole := congrArg property (Option.some.inj h)
      exact List.rtakeWhile_eq_self_iff.mp hwhole
  · intro h
    have hwhole : declaration.property.rtakeWhile isNameChar = declaration.property :=
      List.rtakeWhile_eq_self_iff.mpr h
    rw [legible?, hwhole]
    split
    · next hnil => exact absurd hnil hne
    · rfl

/-! ### What is read of a written list -/

/-- A declaration whose property consists of letters, digits, underscores and hyphens, and whose
value is a piece without white space at its ends. -/
structure Worded (declaration : Declaration) : Prop where
  property_ne_nil : declaration.property ≠ []
  property : ∀ c ∈ declaration.property, isWordChar c = true ∨ c = '-'
  value_trimmed : Text.Trimmed declaration.value
  value_semicolon : ';' ∉ declaration.value

/-- A declaration whose property is a name, so that matching finds it. -/
structure Matched (declaration : Declaration) : Prop extends Worded declaration where
  name : ∀ c ∈ declaration.property, isNameChar c = true

namespace Worded

instance : DecidablePred Worded := fun declaration =>
  decidable_of_iff
    (declaration.property ≠ [] ∧ declaration.property.all (fun c => isWordChar c || c = '-') = true ∧
      Text.Trimmed declaration.value ∧ ';' ∉ declaration.value)
    ⟨fun ⟨hne, hword, htrimmed, hsemicolon⟩ => ⟨hne, by simpa using hword, htrimmed, hsemicolon⟩,
      fun h => ⟨h.property_ne_nil, by simpa using h.property, h.value_trimmed, h.value_semicolon⟩⟩

theorem parted (h : declaration.Worded) : declaration.Parted where
  property_trimmed := Text.trimmed_of_forall fun c hc => not_isSpace_of_isWordChar (h.property c hc)
  property_colon hmem := absurd (h.property ':' hmem) (by decide)
  property_semicolon hmem := absurd (h.property ';' hmem) (by decide)
  value_trimmed := h.value_trimmed
  value_semicolon := h.value_semicolon

end Worded

theorem matched_of_mem_matching {body : Text} (h : declaration ∈ matching body) :
    declaration.Matched := by
  obtain ⟨value, hne, hname, hvalue, hsemicolon, -⟩ := exists_of_mem_matching h
  have hword : ∀ c ∈ declaration.property, isWordChar c = true ∨ c = '-' := by
    intro c hc
    have hchar := hname c hc
    simp only [isNameChar, Bool.or_eq_true, decide_eq_true_eq] at hchar
    exact hchar.imp_left fun halpha => by simp [isWordChar, Char.isAlphanum, halpha]
  exact {
    property_ne_nil := hne
    property := hword
    value_trimmed := hvalue ▸ Text.trim_trim value
    value_semicolon := hvalue ▸ Text.not_mem_trim hsemicolon
    name := hname }

theorem Parted.semicolon (h : declaration.Parted) : ';' ∉ declaration.piece := by
  simp [piece, h.property_semicolon, h.value_semicolon]

theorem split_renderAll (h : ∀ declaration ∈ declarations, declaration.Parted) (indent : Nat) :
    split (renderAll indent declarations) = declarations := by
  have hread : ∀ declaration ∈ declarations, ';' ∉ declaration.piece ∧
      ofPiece? declaration.piece.trim = some declaration := fun declaration hmem =>
    have hparted := h declaration hmem
    ⟨hparted.semicolon, ofPiece?_trim_eq_self hparted.property_colon hparted.property_trimmed
      hparted.value_trimmed⟩
  have hsplit := split_render hread indent (List.forall_mem_nil _) (List.forall_mem_nil _)
  rwa [List.nil_append, List.append_nil] at hsplit

theorem matching_renderAll_eq_filterMap (h : ∀ declaration ∈ declarations, declaration.Worded)
    (indent : Nat) : matching (renderAll indent declarations) = declarations.filterMap legible? := by
  have hpieces := matching_renderAll
    (fun declaration hmem => (h declaration hmem).parted.semicolon) indent [] []
    (List.forall_mem_nil _) (List.forall_mem_nil _)
  rw [List.nil_append, List.append_nil] at hpieces
  rw [hpieces]
  exact List.filterMap_congr fun declaration hmem =>
    named?_piece_eq_legible? (h declaration hmem).property (h declaration hmem).value_trimmed

theorem filterMap_legible?_eq_self_iff (h : ∀ declaration ∈ declarations, declaration.Worded) :
    declarations.filterMap legible? = declarations ↔
      ∀ declaration ∈ declarations, ∀ c ∈ declaration.property, isNameChar c = true := by
  have hself : declarations.filterMap legible? = declarations.map id ↔
      ∀ declaration ∈ declarations, legible? declaration = some (id declaration) :=
    List.filterMap_eq_map_iff_forall_eq_some
  rw [List.map_id] at hself
  rw [hself]
  exact forall₂_congr fun declaration hmem =>
    legible?_eq_self_iff (h declaration hmem).property_ne_nil (h declaration hmem).value_semicolon

/-- **Written declarations.** Of declarations whose properties are words with hyphens, splitting reads
back all as they were written. Matching reads those parts of them that are legible, and these are the
declarations as they were written if and only if the properties have no digit and no underscore. -/
theorem reread_renderAll (h : ∀ declaration ∈ declarations, declaration.Worded) (indent : Nat) :
    split (renderAll indent declarations) = declarations ∧
      matching (renderAll indent declarations) = declarations.filterMap legible? ∧
      (matching (renderAll indent declarations) = declarations ↔
        ∀ declaration ∈ declarations, ∀ c ∈ declaration.property, isNameChar c = true) := by
  have hmatching := matching_renderAll_eq_filterMap h indent
  refine ⟨split_renderAll (fun declaration hmem => (h declaration hmem).parted) indent, hmatching, ?_⟩
  rw [hmatching]
  exact filterMap_legible?_eq_self_iff h

/-- Two declarations, the first of them with a second name in its value. -/
def transitions : List Declaration :=
  [⟨"-moz-transition".toList, "a:b\n c".toList⟩, ⟨"x".toList, []⟩]

theorem reread_renderAll_transitions :
    (∀ declaration ∈ transitions, declaration.Worded) ∧
      renderAll 1 transitions = "\t-moz-transition: a:b\n c;\n\tx: ;\n".toList ∧
      split "\t-moz-transition: a:b\n c;\n\tx: ;\n".toList = transitions ∧
      matching "\t-moz-transition: a:b\n c;\n\tx: ;\n".toList = transitions := by
  have hworded : ∀ declaration ∈ transitions, declaration.Worded := by decide
  obtain ⟨hsplit, -, hiff⟩ := reread_renderAll hworded 1
  have hnames : ∀ declaration ∈ transitions, declaration.property.all isNameChar = true := by decide
  have hmatching := hiff.mpr fun declaration hmem => List.all_eq_true.mp (hnames declaration hmem)
  exact ⟨hworded, rfl, hsplit, hmatching⟩

/-- Custom properties with a digit and an underscore in their names. -/
def numbered : List Declaration :=
  [⟨"--x1".toList, "a:b".toList⟩, ⟨"--y_z".toList, "c".toList⟩]

/-- Of the first one its value is read, of the second one the end of its name. -/
theorem reread_renderAll_numbered_ne :
    (∀ declaration ∈ numbered, declaration.Worded) ∧
      split (renderAll 0 numbered) = numbered ∧
      matching (renderAll 0 numbered) =
        [⟨"a".toList, "b".toList⟩, ⟨"z".toList, "c".toList⟩] ∧
      matching (renderAll 0 numbered) ≠ numbered := by
  decide

/-! ### What was read before -/

theorem matching_renderAll_of_matched (h : ∀ declaration ∈ declarations, declaration.Matched)
    (indent : Nat) : matching (renderAll indent declarations) = declarations := by
  have hworded : ∀ declaration ∈ declarations, declaration.Worded :=
    fun declaration hmem => (h declaration hmem).toWorded
  rw [matching_renderAll_eq_filterMap hworded]
  exact (filterMap_legible?_eq_self_iff hworded).mpr fun declaration hmem =>
    (h declaration hmem).name

/-- The lists that splitting can give. -/
theorem exists_split_eq_iff :
    (∃ body, split body = declarations) ↔ ∀ declaration ∈ declarations, declaration.Parted := by
  constructor
  · rintro ⟨body, rfl⟩ declaration
    exact parted_of_mem_split
  · exact fun h => ⟨_, split_renderAll h 0⟩

/-- The lists that matching can give. -/
theorem exists_matching_eq_iff :
    (∃ body, matching body = declarations) ↔ ∀ declaration ∈ declarations, declaration.Matched := by
  constructor
  · rintro ⟨body, rfl⟩ declaration
    exact matched_of_mem_matching
  · exact fun h => ⟨_, matching_renderAll_of_matched h 0⟩

/-- **Reading again.** Declarations that were read from a block and written at any depth are read
again as they were, in both ways of reading. -/
theorem reread_eq (body : Text) (indent : Nat) :
    split (renderAll indent (split body)) = split body ∧
      matching (renderAll indent (matching body)) = matching body :=
  ⟨split_renderAll (exists_split_eq_iff.mp ⟨body, rfl⟩) indent,
    matching_renderAll_of_matched (exists_matching_eq_iff.mp ⟨body, rfl⟩) indent⟩

end Declaration

end Stylesheet
