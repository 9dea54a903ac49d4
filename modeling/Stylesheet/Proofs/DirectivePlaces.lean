import Stylesheet.Config
import Stylesheet.Proofs.Occurrences
import Stylesheet.Proofs.ParseDepth

/-!
# Places of directives

The directives of a source are told by their form alone, wherever they begin. A kind of directives has
a record for each of them but those that begin inside of one that is recorded, and a source has the
config of the first one.
-/

namespace Stylesheet

namespace Directive

/-- A directive as it stands in a source: the offsets at which it begins and ends, and its value. -/
structure Place where
  start : Nat
  stop : Nat
  value : Text

variable {form : Text → Text → Text → Prop} {source : Text}

/-- The record of a directive, with the line and the comments of the place where it begins. -/
def Place.record (source : Text) (place : Place) : Record Text :=
  ⟨attachedComments source place.start .strict, source.lineNumber place.start, place.value⟩

/-- A directive stands in a source: the bytes from its start to its end are of the form. -/
def Stands (form : (lead value tail : Text) → Prop) (source : Text) (place : Place) : Prop :=
  ∃ front lead tail rest, source = front ++ (lead ++ place.value ++ tail ++ rest) ∧
    form lead place.value tail ∧ place.start = front.byteSize ∧
    place.stop = place.start + Text.byteSize (lead ++ place.value ++ tail)

/-- The records are those of directives that stand in a source one behind the other, and every other
directive begins inside of one of these. -/
def Lists (form : (lead value tail : Text) → Prop) (source : Text) (records : List (Record Text)) :
    Prop :=
  ∃ places : List Place, records = places.map (Place.record source) ∧
    (∀ place ∈ places, Stands form source place) ∧
    (places.Pairwise fun place later => place.start < place.stop ∧ place.stop ≤ later.start) ∧
    ∀ place, Stands form source place →
      place ∈ places ∨ ∃ earlier ∈ places, earlier.start < place.start ∧ place.start < earlier.stop

/-- The record is that of the directive that begins first in a source, if there is one. -/
def First (form : (lead value tail : Text) → Prop) (source : Text) :
    (record : Option (Record Text)) → Prop
  | none => ∀ place, ¬Stands form source place
  | some record => ∃ place, Stands form source place ∧ record = place.record source ∧
      ∀ other, Stands form source other → other = place ∨ place.start < other.start

theorem Lists.first {records : List (Record Text)} (h : Lists form source records) :
    First form source records.head? := by
  obtain ⟨places, rfl, hstands, hsorted, hall⟩ := h
  cases places with
  | nil =>
      intro place hplace
      rcases hall place hplace with hmem | ⟨earlier, hmem, -⟩ <;> exact absurd hmem List.not_mem_nil
  | cons first places =>
      have hleast : ∀ place ∈ first :: places, place = first ∨ first.start < place.start := by
        refine List.forall_mem_cons.mpr ⟨.inl rfl, fun place hplace => .inr ?_⟩
        obtain ⟨hstart, hstop⟩ := (List.pairwise_cons.mp hsorted).1 place hplace
        exact hstart.trans_le hstop
      refine ⟨first, hstands first List.mem_cons_self, rfl, fun other hother => ?_⟩
      rcases hall other hother with hmem | ⟨earlier, hmem, hbefore, -⟩
      · exact hleast other hmem
      · rcases hleast earlier hmem with rfl | hearlier
        · exact .inr hbefore
        · exact .inr (hearlier.trans hbefore)

end Directive

/-- The directive that occurs at a place. -/
def Site.directive (site : Site Reading) : Directive.Place :=
  ⟨site.offset, site.offset + site.content.text.byteSize, site.content.value⟩

namespace Pattern

variable {form : Text → Text → Text → Prop} {pattern : Pattern} {mark : Char} {source : Text}
  {place : Directive.Place}

open Directive (Place Stands Lists)

/-- A directive stands where its pattern reads it. -/
theorem Reads.stands_iff (hreads : pattern.Reads form) : Stands form source place ↔
    ∃ front ahead reading, source = front ++ ahead ∧ pattern ahead = some reading ∧
      place = ⟨front.byteSize, front.byteSize + reading.text.byteSize, reading.value⟩ := by
  constructor
  · obtain ⟨start, stop, value⟩ := place
    rintro ⟨front, lead, tail, rest, rfl, hform, hstart, hstop⟩
    dsimp only at hstart hstop
    subst hstart hstop
    exact ⟨front, _, _, rfl, hreads.of_form hform rest, rfl⟩
  · rintro ⟨front, ahead, reading, rfl, hreading, rfl⟩
    refine ⟨front, reading.lead, reading.tail, reading.rest, ?_, hreads.form_of_eq_some hreading, rfl,
      rfl⟩
    rw [hreads.text_eq hreading]
    rfl

/-- **Places of directives.** A pattern's records are those of the directives of its form. -/
theorem Reads.lists_records (hreads : pattern.Reads form) (hmarked : pattern.Marked mark)
    (source : Text) : Lists form source (Directive.records pattern source) := by
  refine ⟨(pattern.occurrences source).map Site.directive, ?_, ?_, ?_, ?_⟩
  · rw [Directive.records, List.map_map]
    refine List.map_congr_left fun site hsite => ?_
    obtain ⟨ahead, hsource, -⟩ := eq_some_of_mem_occurrences hsite
    exact Site.record_map_eq hsource .strict Reading.value
  · refine List.forall_mem_map.mpr fun site hsite => ?_
    obtain ⟨ahead, hsource, hreading⟩ := eq_some_of_mem_occurrences hsite
    refine hreads.stands_iff.mpr ⟨_, ahead, site.content, hsource, hreading, ?_⟩
    rw [Text.byteSize_reverse]
    rfl
  · refine List.pairwise_map.mpr ?_
    refine (hmarked.searches.pairwise [] source).imp_of_mem fun {site later} hsite _ hbehind => ?_
    obtain ⟨ahead, -, hreading⟩ := eq_some_of_mem_occurrences hsite
    have hpositive := Text.byteSize_pos (hmarked.text_ne_nil hreading)
    have hstop := Site.offset_add_le_of_isSuffix hbehind
    simp only [Site.directive]
    omega
  · intro place hplace
    obtain ⟨front, ahead, reading, rfl, hreading, rfl⟩ := hreads.stands_iff.mp hplace
    rcases hmarked.mem_occurrences_or hreading front with
      hmem | ⟨site, hsite, inner, more, rest, rfl, rfl, hinner, hmore, hpiece⟩
    · refine .inl (List.mem_map.mpr ⟨_, hmem, ?_⟩)
      simp only [Site.directive, Site.offset, Text.byteSize_reverse]
    · refine .inr ⟨site.directive, List.mem_map_of_mem hsite, ?_⟩
      have hinner := Text.byteSize_pos hinner
      have hmore := Text.byteSize_pos hmore
      simp only [Site.directive, Site.offset, hpiece, Text.byteSize_append, Text.byteSize_reverse]
      omega

end Pattern

/-- **Directives of a source.** The charset, import and tailwind records of a parsed source are those
of the directives that stand in it one behind the other, and each other directive begins inside of one
of these. The config record is that of the config directive that begins first. -/
theorem Config.lists_parse (config : Config) (source : Text) :
    Directive.Lists (Directive.QuotedForm "@charset".toList true) source
        ((config.parse source).sheet.charset.getD []) ∧
      Directive.Lists (Directive.QuotedForm "@import".toList false) source
        ((config.parse source).sheet.imports.getD []) ∧
      Directive.Lists (Pattern.WordForm "@tailwind".toList false isWordChar ';') source
        ((config.parse source).sheet.tailwind.getD []) ∧
      Directive.First (Directive.QuotedForm "@config".toList false) source
        (config.parse source).sheet.config := by
  rw [Config.parse, Document.parse_eq_parseAt, Document.sheet_parseAt]
  simp only [getD_present]
  refine ⟨?_, ?_, ?_, Directive.Lists.first ?_⟩
  · exact (Directive.quoted_reads _ _).lists_records (Directive.marked_quoted _ _) source
  · exact (Directive.quoted_reads _ _).lists_records (Directive.marked_quoted _ _) source
  · exact Directive.tailwind_reads.lists_records (Pattern.marked_word Directive.tailwind_reads) source
  · exact (Directive.quoted_reads _ _).lists_records (Directive.marked_quoted _ _) source

/-- An import that begins in the value of another one and ends behind it. -/
example : Directive.imports "@import ';x';".toList ≠ none ∧
    Directive.records Directive.imports "@import '@import ';x';".toList =
      [⟨none, 1, "@import ".toList⟩] := by
  decide

end Stylesheet
