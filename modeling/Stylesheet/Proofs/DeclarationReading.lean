import Mathlib.Data.List.Basic
import Stylesheet.Proofs.BalancedText
import Stylesheet.Proofs.MatchedPieces

/-!
# Reading written declarations

The three ways of reading a block all find the declarations that were written into it.
-/

namespace Stylesheet

namespace Text

theorem blank_replicate {c : Char} (hc : isBlank c = true) (count : Nat) :
    Blank (List.replicate count c) := by
  intro d hd
  rw [List.eq_of_mem_replicate hd]
  exact hc

end Text

namespace Declaration

/-- A declaration without its indent and its semicolon. -/
def piece (declaration : Declaration) : Text :=
  declaration.property ++ ": ".toList ++ declaration.value

/-- A declaration that is cut out of a block and parted at its colon as it was written. -/
structure Separable (declaration : Declaration) : Prop where
  property_trimmed : Text.Trimmed declaration.property
  value_trimmed : Text.Trimmed declaration.value
  colon : ':' ∉ declaration.property
  semicolon : ';' ∉ declaration.piece
  comments : stripComments declaration.piece.trim = declaration.piece.trim

variable {declaration : Declaration} {declarations : List Declaration}

theorem render_eq (indent : Nat) (declaration : Declaration) :
    render indent declaration = List.replicate indent '\t' ++ (declaration.piece ++ ";\n".toList) := by
  rw [render, piece]
  simp only [List.append_assoc]

theorem not_mem_render {c : Char} (hmarks : c ∉ "\t;\n".toList) (hpiece : c ∉ declaration.piece)
    (indent : Nat) : c ∉ render indent declaration := by
  simp only [String.reduceToList, List.mem_cons, List.not_mem_nil, or_false, not_or] at hmarks
  obtain ⟨htab, hsemicolon, hfeed⟩ := hmarks
  rw [render_eq, List.mem_append, List.mem_append]
  rintro (hmem | hmem | hmem)
  · exact htab (List.eq_of_mem_replicate hmem)
  · exact hpiece hmem
  · simp [hsemicolon, hfeed] at hmem

namespace Canonical

theorem piece_comment (h : declaration.Canonical) : ¬['/', '*'] <:+: declaration.piece := by
  have hvalue : ¬['/', '*'] <:+: ": ".toList ++ declaration.value :=
    not_pair_append_left (by decide) h.value_plain.comment
  rw [piece, List.append_assoc]
  exact not_pair_append_cons h.property_plain.comment (by decide) hvalue

theorem not_mem_piece (h : declaration.Canonical) {c : Char} (hc : c ∉ ": ".toList)
    (hplain : ∀ text, Plain text → c ∉ text) : c ∉ declaration.piece := by
  rw [piece, List.mem_append, List.mem_append]
  rintro ((hmem | hmem) | hmem)
  · exact hplain _ h.property_plain hmem
  · exact hc hmem
  · exact hplain _ h.value_plain hmem

theorem at_not_mem_piece (h : declaration.Canonical) : '@' ∉ declaration.piece :=
  h.not_mem_piece (by decide) fun _ hplain => hplain.at_sign

theorem balanced_render (h : declaration.Canonical) (indent : Nat) :
    Balanced (render indent declaration) := by
  have hindent : Balanced (List.replicate indent '\t') :=
    .of_blank (Text.blank_replicate rfl indent)
  have hopening : '{' ∉ declaration.piece :=
    h.not_mem_piece (by decide) fun _ hplain => hplain.opening
  have hclosing : '}' ∉ declaration.piece :=
    h.not_mem_piece (by decide) fun _ hplain => hplain.closing
  have hline : Balanced (declaration.piece ++ ";\n".toList) := by
    refine .of_not_mem ?_ ?_ (not_pair_append_cons h.piece_comment (by decide) (by decide)) ?_
    · simpa using hopening
    · simpa using hclosing
    · simp
  rw [render_eq]
  exact hindent.append hline

end Canonical

theorem stripComments_eq {text : Text} (h : ¬['/', '*'] <:+: text) : stripComments text = text := by
  have hremove : ∀ text, ¬['/', '*'] <:+: text → removeFrom Comment.inlinePattern 0 text = text := by
    intro text h
    induction text with
    | nil => rfl
    | cons c text ih =>
        have hpattern : Comment.pattern (c :: text) = none := by
          unfold Comment.pattern
          split
          · next rest heq =>
              rw [heq] at h
              exact absurd ⟨[], rest, rfl⟩ h
          · rfl
        rw [removeFrom, Comment.inlinePattern, hpattern]
        exact congrArg (c :: ·) (ih (not_pair_tail h))
  exact hremove text h

theorem Canonical.separable (h : declaration.Canonical) : declaration.Separable where
  property_trimmed := h.property_trimmed
  value_trimmed := h.value_trimmed
  colon := h.colon
  semicolon := h.not_mem_piece (by decide) fun _ hplain => hplain.semicolon
  comments := stripComments_eq fun hpair => h.piece_comment (hpair.trans (Text.trim_isInfix _))

theorem piece_eq (declaration : Declaration) :
    declaration.piece = declaration.property ++ ':' :: ' ' :: declaration.value := by
  simp [piece]

theorem trim_piece_ne_nil (declaration : Declaration) : declaration.piece.trim ≠ [] := by
  rw [piece_eq, Text.trim_append_cons (by decide)]
  exact List.append_ne_nil_of_right_ne_nil _ (List.cons_ne_nil _ _)

theorem trim_space_cons (value : Text) : Text.trim (' ' :: value) = value.trim := by
  have htrim := Text.trim_pad blank_space (List.forall_mem_nil _) value
  rwa [List.append_nil] at htrim

/-- What is written is parted at its colon, and comes out trimmed. -/
theorem ofPiece?_trim_piece (hcolon : ':' ∉ declaration.property) :
    ofPiece? declaration.piece.trim = some ⟨declaration.property.trim, declaration.value.trim⟩ := by
  have hstart : ':' ∉ declaration.property.trimStart := fun hmem =>
    hcolon ((List.dropWhile_suffix _).subset hmem)
  have hproperty : Text.trim declaration.property.trimStart = declaration.property.trim := by
    rw [Text.trim, Text.trimStart_trimStart, ← Text.trim]
  have hvalue : Text.trim (Text.trimEnd (' ' :: declaration.value)) = declaration.value.trim := by
    rw [Text.trim_trimEnd, trim_space_cons]
  rw [piece_eq, Text.trim_append_cons (by decide), ofPiece?, Text.cut?_append_cons hstart]
  simp only [Option.map_some, hproperty, hvalue]

theorem ofPiece?_trim_eq_self (hcolon : ':' ∉ declaration.property)
    (hproperty : Text.Trimmed declaration.property) (hvalue : Text.Trimmed declaration.value) :
    ofPiece? declaration.piece.trim = some declaration := by
  rw [ofPiece?_trim_piece hcolon, hproperty, hvalue]

theorem Separable.ofPiece?_trim (h : declaration.Separable) :
    ofPiece? declaration.piece.trim = some declaration :=
  ofPiece?_trim_eq_self h.colon h.property_trimmed h.value_trimmed

/-! Written declarations lie between the semicolons of the text. -/

theorem append_renderAll_cons (indent : Nat) (declaration : Declaration)
    (declarations : List Declaration) (lead tail : Text) :
    lead ++ (renderAll indent (declaration :: declarations) ++ tail) =
      (lead ++ List.replicate indent '\t' ++ declaration.piece) ++
        ';' :: (['\n'] ++ (renderAll indent declarations ++ tail)) := by
  simp [renderAll, render_eq]

theorem semicolon_not_mem_of_blank {blanks : Text} (h : Blank blanks) : ';' ∉ blanks :=
  Text.not_mem_of_forall h rfl

theorem semicolon_not_mem_front {lead : Text} (hlead : Blank lead) (indent : Nat)
    (hpiece : ';' ∉ declaration.piece) :
    ';' ∉ lead ++ List.replicate indent '\t' ++ declaration.piece := by
  rw [List.mem_append, not_or]
  have hindent : Blank (lead ++ List.replicate indent '\t') :=
    hlead.append (Text.blank_replicate rfl indent)
  exact ⟨semicolon_not_mem_of_blank hindent, hpiece⟩

/-- The pieces between the semicolons of a block are the declarations written in it. -/
theorem segments_render (h : ∀ declaration ∈ declarations, ';' ∉ declaration.piece) (indent : Nat) :
    ∀ lead tail, Blank lead → Blank tail →
      segments (lead ++ (renderAll indent declarations ++ tail)) =
        declarations.map fun declaration => declaration.piece.trim := by
  induction declarations with
  | nil =>
      intro lead tail hlead htail
      have hblank := hlead.append htail
      rw [renderAll, List.flatMap_nil, List.nil_append, segments,
        Text.pieces_of_not_mem (semicolon_not_mem_of_blank hblank), List.map_singleton,
        Text.trim_of_space (Text.space_of_blank hblank)]
      rfl
  | cons declaration declarations ih =>
      obtain ⟨hfirst, hothers⟩ := List.forall_mem_cons.mp h
      intro lead tail hlead htail
      have hindent : Blank (lead ++ List.replicate indent '\t') :=
        hlead.append (Text.blank_replicate rfl indent)
      have hpad := Text.trim_pad hindent (List.forall_mem_nil _) declaration.piece
      rw [List.append_nil] at hpad
      have hne : (!declaration.piece.trim.isEmpty) = true := by
        simpa using declaration.trim_piece_ne_nil
      have hrest := ih hothers ['\n'] tail blank_feed htail
      rw [segments] at hrest ⊢
      rw [append_renderAll_cons, Text.pieces_append_cons (semicolon_not_mem_front hlead indent hfirst),
        List.map_cons, hpad, List.filter_cons, if_pos hne, hrest, List.map_cons]

theorem split_render (h : ∀ declaration ∈ declarations, ';' ∉ declaration.piece ∧
      ofPiece? declaration.piece.trim = some declaration) (indent : Nat)
    {lead tail : Text} (hlead : Blank lead) (htail : Blank tail) :
    split (lead ++ (renderAll indent declarations ++ tail)) = declarations := by
  rw [split, segments_render (fun declaration hmem => (h declaration hmem).1) indent lead tail hlead
    htail, List.filterMap_map]
  calc
    declarations.filterMap (ofPiece? ∘ fun declaration => declaration.piece.trim) =
        declarations.filterMap some :=
      List.filterMap_congr fun declaration hmem => (h declaration hmem).2
    _ = declarations := List.filterMap_some

theorem splitStripped_render (h : ∀ declaration ∈ declarations, declaration.Separable)
    (indent : Nat) {lead tail : Text} (hlead : Blank lead) (htail : Blank tail) :
    splitStripped (lead ++ (renderAll indent declarations ++ tail)) = declarations := by
  have hpiece : ∀ declaration ∈ declarations,
      (let stripped := (stripComments declaration.piece.trim).trim
        if stripped.isEmpty then none else ofPiece? stripped) = some declaration := by
    intro declaration hmem
    have hseparable := h declaration hmem
    have hne : ¬declaration.piece.trim.isEmpty = true := by
      simpa using declaration.trim_piece_ne_nil
    simp only [hseparable.comments, Text.trim_trim]
    rw [if_neg hne, hseparable.ofPiece?_trim]
  rw [splitStripped, segments_render (fun declaration hmem => (h declaration hmem).semicolon) indent
    lead tail hlead htail, List.filterMap_map]
  calc
    declarations.filterMap _ = declarations.filterMap some := List.filterMap_congr hpiece
    _ = declarations := List.filterMap_some

/-- Matching reads each written declaration on its own. -/
theorem matching_renderAll (h : ∀ declaration ∈ declarations, ';' ∉ declaration.piece)
    (indent : Nat) : ∀ lead tail, Blank lead → Blank tail →
      matching (lead ++ (renderAll indent declarations ++ tail)) =
        declarations.filterMap fun declaration => named? declaration.piece := by
  induction declarations with
  | nil =>
      intro lead tail hlead htail
      rw [renderAll, List.flatMap_nil, List.nil_append,
        matching_of_not_mem (semicolon_not_mem_of_blank (hlead.append htail))]
      rfl
  | cons declaration declarations ih =>
      obtain ⟨hfirst, hothers⟩ := List.forall_mem_cons.mp h
      intro lead tail hlead htail
      have hindent : Blank (lead ++ List.replicate indent '\t') :=
        hlead.append (Text.blank_replicate rfl indent)
      rw [append_renderAll_cons, matching_append_cons (semicolon_not_mem_front hlead indent hfirst),
        named?_append_blank hindent, ih hothers ['\n'] tail blank_feed htail, List.filterMap_cons]
      cases named? declaration.piece <;> rfl

theorem named?_piece (hne : declaration.property ≠ [])
    (hname : ∀ c ∈ declaration.property, isNameChar c = true) :
    named? declaration.piece = some ⟨declaration.property, declaration.value.trim⟩ := by
  rw [piece_eq, named?_append_colon hname hne, trim_space_cons]

theorem matching_render (hcanonical : ∀ declaration ∈ declarations, declaration.Canonical ∧
      declaration.property ≠ [] ∧ declaration.property.all isNameChar) (indent : Nat) {tail : Text}
    (htail : Blank tail) :
    matching (Text.trim ('\n' :: (renderAll indent declarations ++ tail))) = declarations := by
  have hread : ∀ declaration ∈ declarations, named? declaration.piece = some declaration := by
    intro declaration hmem
    obtain ⟨hdeclaration, hne, hname⟩ := hcanonical declaration hmem
    rw [named?_piece hne (List.all_eq_true.mp hname), hdeclaration.value_trimmed]
  have hpieces := matching_renderAll
    (fun declaration hmem => (hcanonical declaration hmem).1.separable.semicolon) indent ['\n'] tail
    blank_feed htail
  rw [List.singleton_append] at hpieces
  rw [matching_trim, hpieces, List.filterMap_congr hread, List.filterMap_some]

end Declaration

end Stylesheet
