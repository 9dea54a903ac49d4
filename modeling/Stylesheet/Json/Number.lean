import Stylesheet.Json.Fault

/-!
# JSON numbers

A numeral is cut into its digits first; its value is found from them. Integers that fit into 64 bits
stay integers, all other numerals are binary floating point.
-/

namespace Stylesheet.Json

/-- The parts of a numeral. The sign of the exponent is true if it is negative. -/
structure Numeral where
  negative : Bool
  whole : Text
  fraction : Text
  exponent : Option (Bool × Text)
deriving DecidableEq

namespace Numeral

/-- The digits at the front of a text, at least one, and the text after them. -/
def digits (text : Text) : Except Fault (Text × Text) :=
  match text with
  | [] => .error .endOfValue
  | c :: _ =>
      if c.isDigit then .ok (text.takeWhile Char.isDigit, text.dropWhile Char.isDigit)
      else .error .invalidNumber

/-- The digits before the point. A zero stands alone. -/
def readWhole (text : Text) : Except Fault (Text × Text) := do
  let (whole, rest) ← digits text
  if whole.head? = some '0' && 1 < whole.length then .error .invalidNumber
  else .ok (whole, rest)

/-- The digits after the point, if there is a point. -/
def readFraction : Text → Except Fault (Text × Text)
  | '.' :: text => digits text
  | text => .ok ([], text)

/-- Whether an exponent begins with a minus, and the text after its sign. -/
def readSign : Text → Bool × Text
  | '-' :: text => (true, text)
  | '+' :: text => (false, text)
  | text => (false, text)

def readExponent : Text → Except Fault (Option (Bool × Text) × Text)
  | [] => .ok (none, [])
  | c :: text =>
      if c = 'e' || c = 'E' then do
        let (negative, ahead) := readSign text
        let (exponent, rest) ← digits ahead
        .ok (some (negative, exponent), rest)
      else .ok (none, c :: text)

/-- The numeral at the front of a text, and the text after it. -/
def read (text : Text) : Except Fault (Numeral × Text) := do
  let (negative, ahead) := match text with
    | '-' :: ahead => (true, ahead)
    | ahead => (false, ahead)
  let (whole, ahead) ← readWhole ahead
  let (fraction, ahead) ← readFraction ahead
  let (exponent, rest) ← readExponent ahead
  .ok (⟨negative, whole, fraction, exponent⟩, rest)

def digitValue (c : Char) : Nat :=
  c.toNat - '0'.toNat

/-- The value of a run of digits. -/
def natural (digits : Text) : Nat :=
  digits.foldl (fun value c => value * 10 + digitValue c) 0

/-- One more than the greatest number of 64 bits. -/
def limit : Nat := Nat.pow 2 64

/-- Appends digits to a significand for as long as it stays below the limit; counts those taken. -/
def accumulate : (significand : Nat) → (digits : Text) → Nat × Nat
  | significand, [] => (significand, 0)
  | significand, c :: digits =>
      let next := significand * 10 + digitValue c
      if next < limit then
        let (last, taken) := accumulate next digits
        (last, taken + 1)
      else (significand, 0)

/-- The value as a floating point number. Digits that do not fit into the significand only count for
the size of the number, and the fraction goes on where the digits before the point left off. -/
def float (numeral : Numeral) : Except Fault Number :=
  let (whole, taken) := accumulate 0 numeral.whole
  let (significand, places) := accumulate whole numeral.fraction
  let exponent : Int := match numeral.exponent with
    | none => 0
    | some (true, digits) => -natural digits
    | some (false, digits) => natural digits
  let dropped : Int := numeral.whole.length - taken
  match Binary64.ofDecimal? significand (exponent + dropped - places) with
  | none => .error .numberOutOfRange
  | some magnitude => .ok (.float numeral.negative magnitude)

/-- The value of a numeral. A negative zero is a floating point number. -/
def value (numeral : Numeral) : Except Fault Number :=
  let magnitude := natural numeral.whole
  if !numeral.fraction.isEmpty || numeral.exponent.isSome then numeral.float
  else if numeral.negative then
    if 0 < magnitude && magnitude ≤ limit / 2 then .ok (.integer (-magnitude)) else numeral.float
  else if magnitude < limit then .ok (.integer magnitude)
  else numeral.float

end Numeral

end Stylesheet.Json
