import Stylesheet.Json.Fault

/-!
# JSON string literals

A literal is read for two readers at once. The strict reader wants its text; the lax reader only
wants to get past it, and does not mind escapes that stand for half a character.
-/

namespace Stylesheet.Json

/-- What a strict and a lax reader make of a piece of text. -/
structure Scanned (α : Type) where
  value : Except Fault α
  lax : Option Fault

/-- A string literal, and the text after it if a lax reader gets past it. -/
structure Literal where
  scanned : Scanned Text
  rest : Option Text

namespace Literal

def fail (strict lax : Fault) : Literal :=
  ⟨⟨.error strict, some lax⟩, none⟩

def close (rest : Text) : Literal :=
  ⟨⟨.ok [], none⟩, some rest⟩

/-- A literal with one more character in front. -/
def push (c : Char) (literal : Literal) : Literal :=
  { literal with scanned.value := literal.scanned.value.map (c :: ·) }

/-- A literal with a fault in front that only a strict reader minds. -/
def spoil (fault : Fault) (literal : Literal) : Literal :=
  { literal with scanned.value := .error fault }

/-- A literal that does not begin with the second half of a character whose first half is
pending. -/
def settle (pending : Option Nat) (literal : Literal) : Literal :=
  match pending with
  | none => literal
  | some _ => literal.spoil .unpairedSurrogate

def hexValue? (c : Char) : Option Nat :=
  if c.isDigit then some (c.toNat - '0'.toNat)
  else if 'a' ≤ c && c ≤ 'f' then some (c.toNat - 'a'.toNat + 10)
  else if 'A' ≤ c && c ≤ 'F' then some (c.toNat - 'A'.toNat + 10)
  else none

/-- The code unit that four hexadecimal digits stand for. -/
def unit? (a b c d : Char) : Option Nat := do
  some (((← hexValue? a) * 16 + (← hexValue? b)) * 256 + ((← hexValue? c) * 16 + (← hexValue? d)))

/-- A code unit that stands for the first half of a character. -/
def isLeading (unit : Nat) : Bool :=
  0xd800 ≤ unit && unit ≤ 0xdbff

/-- A code unit that stands for the second half of a character. -/
def isTrailing (unit : Nat) : Bool :=
  0xdc00 ≤ unit && unit ≤ 0xdfff

/-- The character that two code units stand for. -/
def pair (leading trailing : Nat) : Char :=
  Char.ofNat (0x10000 + (leading - 0xd800) * 0x400 + (trailing - 0xdc00))

/-- The character that a letter stands for after a backslash. -/
def letter? (c : Char) : Option Char :=
  match c with
  | '"' => some '"'
  | '\\' => some '\\'
  | '/' => some '/'
  | 'b' => some '\x08'
  | 'f' => some '\x0c'
  | 'n' => some '\n'
  | 'r' => some '\r'
  | 't' => some '\t'
  | _ => none

/-- The literal after its opening quote; `pending` is a code unit for the first half of a character
that stands right before. Hexadecimal digits are counted in bytes when the text ends among them. -/
def read : (pending : Option Nat) → Text → Literal
  | pending, '\\' :: 'u' :: a :: b :: c :: d :: text =>
      match unit? a b c d, pending with
      | none, _ => fail .invalidEscape .invalidEscape
      | some unit, some leading =>
          if isTrailing unit then push (pair leading unit) (read none text)
          else spoil .loneSurrogate (read none text)
      | some unit, none =>
          if isTrailing unit then spoil .loneSurrogate (read none text)
          else if isLeading unit then read (some unit) text
          else push (Char.ofNat unit) (read none text)
  | _, '\\' :: 'u' :: text =>
      if Text.byteSize text < 4 then fail .endOfString .endOfString
      else fail .invalidEscape .invalidEscape
  | pending, '\\' :: c :: text =>
      match letter? c with
      | none => settle pending (fail .invalidEscape .invalidEscape)
      | some meant => settle pending (push meant (read none text))
  | pending, '"' :: text => settle pending (close text)
  | pending, c :: text =>
      if c = '\\' then fail .endOfString .endOfString
      else if c < ' ' then settle pending (fail .controlCharacter .controlCharacter)
      else settle pending (push c (read none text))
  | _, [] => fail .endOfString .endOfString

end Literal

end Stylesheet.Json
