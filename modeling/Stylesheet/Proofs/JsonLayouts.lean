import Stylesheet.Document.ToJson
import Stylesheet.Proofs.JsonReading

/-!
# Layouts of written JSON

The pretty layout adds blanks and line feeds to the compact one, and nothing else. They are added
outside of string literals, where the compact layout has none, so they can be taken off again.
-/

namespace Stylesheet

namespace Json

/-- A text without the spaces and line feeds outside of its string literals; `quoted` tells whether
the text begins in one. -/
def squeezeFrom : (quoted : Bool) → Text → Text
  | _, [] => []
  | true, '\\' :: c :: text => '\\' :: c :: squeezeFrom true text
  | true, c :: text => c :: squeezeFrom (c ≠ '"') text
  | false, c :: text =>
      if c = ' ' || c = '\n' then squeezeFrom false text else c :: squeezeFrom (c = '"') text

/-- A text without the spaces and line feeds outside of its string literals. -/
def squeeze (text : Text) : Text :=
  squeezeFrom false text

theorem squeezeFrom_verbatim {piece : Text} (h : ∀ c ∈ piece, Verbatim c) (rest : Text) :
    squeezeFrom true (piece ++ rest) = piece ++ squeezeFrom true rest := by
  induction piece with
  | nil => rfl
  | cons c piece ih =>
      obtain ⟨hc, hpiece⟩ := List.forall_mem_cons.mp h
      have hquoted : decide (c ≠ '"') = true := decide_eq_true hc.quote
      rw [List.cons_append, squeezeFrom, hquoted, ih hpiece, List.cons_append]
      exact fun _ _ hslash _ => hc.backslash hslash

theorem squeezeFrom_escape (c : Char) (text : Text) :
    squeezeFrom true (escape c ++ text) = escape c ++ squeezeFrom true text := by
  rcases escape_cases c with ⟨letter, digits, hescape, -, hdigits⟩ | ⟨hescape, hc⟩
  · rw [hescape, List.cons_append, List.cons_append, squeezeFrom, squeezeFrom_verbatim hdigits,
      List.cons_append, List.cons_append]
  · rw [hescape]
    exact squeezeFrom_verbatim (List.forall_mem_singleton.mpr hc) text

/-- A piece of text that stands outside of string literals, and what is left of it. -/
def Squeezes (piece left : Text) : Prop :=
  ∀ rest, squeezeFrom false (piece ++ rest) = left ++ squeezeFrom false rest

namespace Squeezes

variable {piece left other otherLeft : Text}

theorem nil : Squeezes [] [] :=
  fun _ => rfl

theorem append (h : Squeezes piece left) (hother : Squeezes other otherLeft) :
    Squeezes (piece ++ other) (left ++ otherLeft) := by
  intro rest
  rw [List.append_assoc, h, hother, List.append_assoc]

theorem flatMap {β : Type} {write writeLeft : β → Text} {items : List β}
    (h : ∀ item ∈ items, Squeezes (write item) (writeLeft item)) :
    Squeezes (items.flatMap write) (items.flatMap writeLeft) := by
  induction items with
  | nil => exact .nil
  | cons item items ih =>
      obtain ⟨hitem, hitems⟩ := List.forall_mem_cons.mp h
      rw [List.flatMap_cons, List.flatMap_cons]
      exact hitem.append (ih hitems)

/-- A piece without quotes, spaces and line feeds is left as it is. -/
theorem of_forall (h : ∀ c ∈ piece, c ≠ '"' ∧ c ≠ ' ' ∧ c ≠ '\n') : Squeezes piece piece := by
  intro rest
  induction piece with
  | nil => rfl
  | cons c piece ih =>
      obtain ⟨⟨hquote, hspace, hfeed⟩, hpiece⟩ := List.forall_mem_cons.mp h
      rw [List.cons_append, squeezeFrom]
      simp [hquote, hspace, hfeed, ih hpiece]

theorem of_blanks (h : ∀ c ∈ piece, c = ' ' ∨ c = '\n') : Squeezes piece [] := by
  intro rest
  induction piece with
  | nil => rfl
  | cons c piece ih =>
      obtain ⟨hc, hpiece⟩ := List.forall_mem_cons.mp h
      rw [List.cons_append, squeezeFrom, if_pos (by simpa using hc), ih hpiece]

theorem newline (layout : Layout) (indent : Nat) :
    Squeezes (layout.newline indent) (Layout.compact.newline indent) := by
  cases layout with
  | compact => exact .nil
  | pretty =>
      refine .of_blanks fun c hc => ?_
      rcases List.mem_cons.mp hc with rfl | hc
      · exact .inr rfl
      · exact .inl (List.eq_of_mem_replicate hc)

theorem colon (layout : Layout) : Squeezes layout.colon Layout.compact.colon := by
  cases layout <;> exact fun _ => rfl

theorem quote (text : Text) : Squeezes (Json.quote text) (Json.quote text) := by
  intro rest
  have hinside : squeezeFrom true (text.flatMap Json.escape ++ '"' :: rest) =
      text.flatMap Json.escape ++ '"' :: squeezeFrom false rest := by
    induction text with
    | nil => rfl
    | cons c text ih =>
        rw [List.flatMap_cons, List.append_assoc, squeezeFrom_escape, ih, List.append_assoc]
  rw [Json.quote, List.append_assoc, List.append_assoc]
  exact congrArg ('"' :: ·) hinside

theorem between {β : Type} {close : Char} {gap gapLeft lastGap lastLeft : Text}
    {write writeLeft : β → Text} {items : List β} (hclose : close = ']' ∨ close = '}')
    (hgap : Squeezes gap gapLeft) (hlast : Squeezes lastGap lastLeft)
    (hitems : ∀ item ∈ items, Squeezes (write item) (writeLeft item)) :
    Squeezes (Json.between close gap lastGap write items)
      (Json.between close gapLeft lastLeft writeLeft items) := by
  have hend : Squeezes [close] [close] := by rcases hclose with rfl | rfl <;> exact fun _ => rfl
  have hcomma : Squeezes [','] [','] := fun _ => rfl
  cases items with
  | nil => exact hend
  | cons item items =>
      obtain ⟨hitem, hitems⟩ := List.forall_mem_cons.mp hitems
      have hothers := flatMap fun other hother => (hcomma.append hgap).append (hitems other hother)
      exact (((hgap.append hitem).append hothers).append hlast).append hend

end Squeezes

theorem squeezes_write (layout : Layout) (json : Json) :
    ∀ indent, Squeezes (write layout indent json) (write .compact indent json) := by
  induction json using Json.induction with
  | null => exact fun _ _ => rfl
  | bool value => exact fun _ _ => by cases value <;> rfl
  | number value =>
      intro indent
      rw [write_number, write_number]
      refine .of_forall fun c hc => ?_
      have hdigit := Nat.isDigit_of_mem_toDigits (by decide) (by decide) hc
      refine ⟨?_, ?_, ?_⟩ <;> rintro rfl <;> exact absurd hdigit (by decide)
  | string text => exact fun _ => .quote text
  | array items ih =>
      intro indent
      have hopening : Squeezes ['['] ['['] := fun _ => rfl
      rw [write_array, write_array]
      exact hopening.append (.between (.inl rfl) (.newline layout _) (.newline layout _)
        fun item hitem => ih item hitem (indent + 1))
  | object members ih =>
      intro indent
      have hopening : Squeezes ['{'] ['{'] := fun _ => rfl
      have hmember : ∀ member ∈ members, Squeezes (writeMember layout (indent + 1) member)
          (writeMember .compact (indent + 1) member) := by
        intro member hmember
        rw [writeMember_eq, writeMember_eq]
        exact ((Squeezes.quote member.1).append (.colon layout)).append
          (ih member hmember (indent + 1))
      rw [write_object, write_object]
      exact hopening.append (.between (.inr rfl) (.newline layout _) (.newline layout _) hmember)

/-- Whatever the layout of a value is, squeezed it is compact. -/
theorem squeeze_print (layout : Layout) (json : Json) :
    squeeze (json.print layout) = json.print .compact := by
  have hwrite := squeezes_write layout json 0 []
  rwa [List.append_nil, squeezeFrom, List.append_nil] at hwrite

example : squeeze ((array [.string "a \" b".toList, .number 10]).print .pretty) =
    "[\"a \\\" b\",10]".toList := by
  decide

section Printable

theorem le_of_mem_escape {c letter : Char} (h : letter ∈ escape c) : ' ' ≤ letter := by
  rcases escape_cases c with ⟨first, digits, hescape, hfirst, hdigits⟩ | ⟨hescape, hc⟩
  · rw [hescape] at h
    rcases List.mem_cons.mp h with rfl | h
    · decide
    rcases List.mem_cons.mp h with rfl | h
    · exact hfirst
    · exact (hdigits letter h).printable
  · rw [hescape] at h
    rw [List.mem_singleton.mp h]
    exact hc.printable

theorem le_of_mem_quote {text : Text} {c : Char} (h : c ∈ quote text) : ' ' ≤ c := by
  rw [quote, List.mem_append, List.mem_cons, List.mem_flatMap, List.mem_singleton] at h
  rcases h with (rfl | ⟨_, _, h⟩) | rfl
  · decide
  · exact le_of_mem_escape h
  · decide

theorem le_of_all {text : Text} (h : text.all (' ' ≤ ·) = true) : ∀ c ∈ text, ' ' ≤ c :=
  fun c hc => of_decide_eq_true (List.all_eq_true.mp h c hc)

theorem forall_mem_between {β : Type} {close : Char} {gap lastGap : Text} {write : β → Text}
    {items : List β} {P : Char → Prop} (hclose : P close) (hcomma : P ',') (hgap : ∀ c ∈ gap, P c)
    (hlast : ∀ c ∈ lastGap, P c) (hitems : ∀ item ∈ items, ∀ c ∈ write item, P c) :
    ∀ c ∈ between close gap lastGap write items, P c := by
  cases items with
  | nil => exact List.forall_mem_singleton.mpr hclose
  | cons item items =>
      obtain ⟨hitem, hitems⟩ := List.forall_mem_cons.mp hitems
      simp only [between, List.forall_mem_append, List.forall_mem_cons, List.forall_mem_flatMap]
      exact ⟨⟨⟨⟨hgap, hitem⟩, fun other hother => ⟨⟨hcomma, hgap⟩, hitems other hother⟩⟩, hlast⟩,
        hclose, List.forall_mem_nil _⟩

/-- In the compact layout every control character is written as an escape. -/
theorem le_of_mem_write (json : Json) : ∀ indent, ∀ c ∈ write .compact indent json, ' ' ≤ c := by
  induction json using Json.induction with
  | null => exact fun _ => le_of_all rfl
  | bool value =>
      intro indent
      cases value with
      | true => exact le_of_all rfl
      | false => exact le_of_all rfl
  | number value =>
      intro indent c hc
      rw [write_number] at hc
      have hdigit := Nat.isDigit_of_mem_toDigits (by decide) (by decide) hc
      rw [Char.isDigit, Bool.and_eq_true, decide_eq_true_iff] at hdigit
      exact Char.le_trans (by decide) hdigit.1
  | string text => exact fun _ _ => le_of_mem_quote
  | array items ih =>
      intro indent
      rw [write_array]
      exact List.forall_mem_cons.mpr ⟨by decide, forall_mem_between (by decide) (by decide)
        (List.forall_mem_nil _) (List.forall_mem_nil _) fun item hitem => ih item hitem _⟩
  | object members ih =>
      intro indent
      have hmember : ∀ member ∈ members,
          ∀ c ∈ writeMember .compact (indent + 1) member, ' ' ≤ c := by
        intro member hmember
        rw [writeMember_eq]
        simp only [List.forall_mem_append]
        exact ⟨⟨fun _ => le_of_mem_quote, le_of_all rfl⟩, ih member hmember (indent + 1)⟩
      rw [write_object]
      exact List.forall_mem_cons.mpr ⟨by decide, forall_mem_between (by decide) (by decide)
        (List.forall_mem_nil _) (List.forall_mem_nil _) hmember⟩

end Printable

end Json

/-- The pretty text of a document, without the spaces and line feeds that lie outside of its string
literals, is the compact text; and in that one no character is below the space. -/
theorem Document.squeeze_print_pretty (document : Document) :
    Json.squeeze (document.print .pretty) = document.print .compact ∧
      ∀ c ∈ document.print .compact, ' ' ≤ c :=
  ⟨Json.squeeze_print .pretty document.toJson, Json.le_of_mem_write document.toJson 0⟩

end Stylesheet
