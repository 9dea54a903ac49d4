import Stylesheet.Text

/-!
# Scans

A scan walks through a text from left to right. At each place it reaches it looks at the text that
lies ahead and decides on a move. What it finds is kept together with the text before it.
-/

namespace Stylesheet

/-- A find, and the text before it with the nearest character first. -/
structure Site (α : Type) where
  before : Text
  content : α
deriving DecidableEq

namespace Site

variable {α β : Type}

/-- The byte offset at which the find begins. -/
def offset (site : Site α) : Nat :=
  Text.byteSize site.before

/-- The line on which the find begins, counted from 1. -/
def line (site : Site α) : Nat :=
  site.before.count '\n' + 1

def map (f : α → β) (site : Site α) : Site β :=
  ⟨site.before, f site.content⟩

end Site

/-- What a scan does at one place. A move over no characters counts as a move over one. -/
inductive Move (α : Type) where
  | stop
  | pass (length : Nat)
  | take (found : α) (length : Nat)
deriving DecidableEq

/-- Walks through a text, whose first `skip` characters belong to the move made before. -/
def scanFrom {α : Type} (move : Text → Move α) : (skip : Nat) → (before text : Text) → List (Site α)
  | _, _, [] => []
  | skip + 1, before, c :: text => scanFrom move skip (c :: before) text
  | 0, before, c :: text =>
      match move (c :: text) with
      | .stop => []
      | .pass length => scanFrom move (length - 1) (c :: before) text
      | .take found length => ⟨before, found⟩ :: scanFrom move (length - 1) (c :: before) text

/-- Everything that a scan finds in a text, in order. -/
def scan {α : Type} (move : Text → Move α) (text : Text) : List (Site α) :=
  scanFrom move 0 [] text

/-- The finds of a scan, without their places. -/
def scanContents {α : Type} (move : Text → Move α) (text : Text) : List α :=
  (scan move text).map Site.content

end Stylesheet
