import Stylesheet.Text

/-!
# Binary floating point

Magnitudes in the binary format of 64 bits, computed exactly on natural numbers and rounded to the
nearest neighbour, of two equally near ones to the even one. A magnitude is written with the fewest
digits that read back as it.
-/

namespace Stylesheet

/-- The magnitude `mantissa * 2 ^ exponent`. -/
structure Binary64 where
  mantissa : Nat
  exponent : Int
deriving DecidableEq

namespace Binary64

def precision : Nat := 53

def leastExponent : Int := -1074

def greatestExponent : Int := 971

def zero : Binary64 :=
  ⟨0, leastExponent⟩

def isZero (x : Binary64) : Bool :=
  x.mantissa = 0

/-- A quotient in units of `base ^ exponent`, as a numerator and a denominator. -/
def inUnits (base : Nat) (exponent : Int) (num den : Nat) : Nat × Nat :=
  if 0 ≤ exponent then (num, den * Nat.pow base exponent.toNat)
  else (num * Nat.pow base (-exponent).toNat, den)

/-- A magnitude as a numerator and a denominator. -/
def ratio (x : Binary64) : Nat × Nat :=
  inUnits 2 (-x.exponent) x.mantissa 1

/-- The integer nearest to a quotient, of two equally near ones the even one. -/
def divideToEven (num den : Nat) : Nat :=
  let quotient := num / den
  let twice := 2 * (num % den)
  if den < twice || (twice = den && quotient % 2 = 1) then quotient + 1 else quotient

/-- The exponent of the units in which a quotient is written. -/
def unitExponent (num den : Nat) : Int :=
  let guess := max ((num.log2 : Int) - den.log2 - precision) leastExponent
  let (scaled, unit) := inUnits 2 guess num den
  if Nat.pow 2 precision ≤ scaled / unit then guess + 1 else guess

/-- The magnitude nearest to a quotient; `none` when it is too large for the format. -/
def nearest? (num den : Nat) : Option Binary64 :=
  if num = 0 then some zero
  else
    let exponent := unitExponent num den
    let (scaled, unit) := inUnits 2 exponent num den
    let mantissa := divideToEven scaled unit
    let rounded : Binary64 :=
      if mantissa = Nat.pow 2 precision then ⟨Nat.pow 2 (precision - 1), exponent + 1⟩
      else ⟨mantissa, exponent⟩
    if rounded.exponent ≤ greatestExponent then some rounded else none

def multiply? (x y : Binary64) : Option Binary64 :=
  nearest? (x.ratio.1 * y.ratio.1) (x.ratio.2 * y.ratio.2)

def divide? (x y : Binary64) : Option Binary64 :=
  nearest? (x.ratio.1 * y.ratio.2) (x.ratio.2 * y.ratio.1)

/-- The greatest power of ten that is below the largest magnitude. -/
def greatestPower : Nat := 308

def powerOfTen? (exponent : Nat) : Option Binary64 :=
  nearest? (Nat.pow 10 exponent) 1

/-- Divides by a power of ten, `greatestPower` digits at a time. A third division finds nothing left
of a significand below `2 ^ 64`. -/
def divideByPower? : (steps : Nat) → Binary64 → (exponent : Nat) → Option Binary64
  | 0, _, _ => some zero
  | steps + 1, x, exponent =>
      if exponent ≤ greatestPower then (powerOfTen? exponent).bind x.divide?
      else do
        let ahead ← (powerOfTen? greatestPower).bind x.divide?
        divideByPower? steps ahead (exponent - greatestPower)

/-- A significand below `2 ^ 64` times a power of ten. The significand, the power and the result are
rounded one after the other; `none` when the result is too large. -/
def ofDecimal? (significand : Nat) (exponent : Int) : Option Binary64 := do
  let x ← nearest? significand 1
  if x.isZero then some zero
  else if exponent < 0 then divideByPower? 3 x (-exponent).toNat
  else if greatestPower < exponent.toNat then none
  else (powerOfTen? exponent.toNat).bind x.multiply?

/-- A number `0.digits * 10 ^ (exponent + 1)`, whose first digit stands for `10 ^ exponent`. -/
structure Decimal where
  digits : Text
  exponent : Int
deriving DecidableEq

/-- The exponent of the leading decimal digit of a magnitude that is not zero. Every magnitude has
such a digit before its 400th decimal place. -/
def leadingExponent (x : Binary64) : Int :=
  let (num, den) := inUnits 10 (-400) x.ratio.1 x.ratio.2
  ((Nat.toDigits 10 (num / den)).length : Int) - 401

/-- Whether a multiple of `10 ^ exponent` is read as the magnitude. The ends of the interval of
numbers nearest to it belong to it if its mantissa is even; below a power of two the interval is
half as wide as above. -/
def readsBack (x : Binary64) (multiple : Nat) (exponent : Int) : Bool :=
  let decimal := inUnits 10 (-exponent) multiple 1
  let (quarters, unit) := inUnits 2 (x.exponent - 2) decimal.1 decimal.2
  let isPower := x.mantissa = Nat.pow 2 (precision - 1) && leastExponent < x.exponent
  let low := (4 * x.mantissa - if isPower then 1 else 2) * unit
  let high := (4 * x.mantissa + 2) * unit
  if x.mantissa % 2 = 0 then low ≤ quarters && quarters ≤ high
  else low < quarters && quarters < high

/-- The multiple of `10 ^ exponent` nearest to the magnitude among its two neighbours that read
back; of two equally near ones the even one. -/
def neighbour? (x : Binary64) (exponent : Int) : Option Nat :=
  let (num, den) := inUnits 10 exponent x.ratio.1 x.ratio.2
  let below := num / den
  match x.readsBack below exponent, x.readsBack (below + 1) exponent with
  | true, true => some (divideToEven num den)
  | true, false => some below
  | false, true => some (below + 1)
  | false, false => none

/-- The shortest decimal that reads back as a magnitude that is not zero, with at most `more` digits
added to the `count` tried before. -/
def shortestFrom (x : Binary64) (leading : Int) : (count more : Nat) → Decimal
  | _, 0 => ⟨['0'], 0⟩
  | count, more + 1 =>
      match x.neighbour? (leading - count) with
      | none => shortestFrom x leading (count + 1) more
      | some multiple =>
          let digits := Nat.toDigits 10 multiple
          ⟨(digits.reverse.dropWhile (· = '0')).reverse, leading - count + (digits.length - 1)⟩

def shortest (x : Binary64) : Decimal :=
  shortestFrom x x.leadingExponent 0 17

/-- The exponent in a text, always with its sign. -/
def exponentText (exponent : Int) : Text :=
  ['e', if exponent < 0 then '-' else '+'] ++ Nat.toDigits 10 exponent.natAbs

/-- The text of a decimal: positional from `10 ^ -5` to below `10 ^ 16` and with an exponent
elsewhere. A positional integer ends in `.0`. -/
def Decimal.text (decimal : Decimal) : Text :=
  let ⟨digits, exponent⟩ := decimal
  if exponent < -5 || 15 < exponent then
    let fraction := digits.drop 1
    digits.take 1 ++ (if fraction.isEmpty then [] else '.' :: fraction) ++ exponentText exponent
  else if exponent < 0 then
    ['0', '.'] ++ List.replicate ((-exponent).toNat - 1) '0' ++ digits
  else
    let places := exponent.toNat + 1
    let fraction := digits.drop places
    digits.take places ++ List.replicate (places - digits.length) '0' ++
      ('.' :: if fraction.isEmpty then ['0'] else fraction)

/-- The text of a magnitude. -/
def text (x : Binary64) : Text :=
  if x.isZero then ['0', '.', '0'] else x.shortest.text

end Binary64

end Stylesheet
