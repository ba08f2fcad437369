/-!
# Decimal numbers and doubles

A number in scientific notation stands for a significand times a power of ten.  Programs that keep
numbers as doubles cannot take all of them: from half a step above the largest double on, a number
is rounded to infinity.

## Main definitions

* `Decimal` — a significand and a power of ten.
* `Decimal.isFinite` — the nearest double is finite.
* `Decimal.isProductFinite` — the same if significand and power are rounded before they are
  multiplied.
* `Decimal.ofLeadingDigits` — a number of which only the digits that fit in 64 bits count.
-/

namespace Bindery

/-- The number `significand * 10 ^ exponent`. -/
structure Decimal where
  significand : Nat
  exponent : Int := 0
  deriving DecidableEq, Repr, Inhabited

namespace Decimal

/-- The value of a list of decimal digits. -/
def digitsValue (ds : List Char) : Nat := ds.foldl (fun n d => n * 10 + (d.toNat - '0'.toNat)) 0

/-- The least number that is rounded to infinity: half a step above the largest double. -/
def doubleLimit : Nat := (1 <<< 1024) - (1 <<< 970)

/-- The largest power of ten that is a double. -/
def largestPower : Nat := 308

/-- The nearest double of the number is finite.  The sizes of the parts settle all cases in which a
power of ten would be huge. -/
def isFinite (d : Decimal) : Bool :=
  match d.exponent with
  | .ofNat e =>
    d.significand == 0 || (e ≤ largestPower && d.significand * Nat.pow 10 e < doubleLimit)
  | .negSucc e =>
    d.significand.log2 < 1023 + 3 * (e + 1) || d.significand < doubleLimit * Nat.pow 10 (e + 1)

/-- The nearest number of 53 binary digits and zeros behind them; of two the one whose last digit
is 0. -/
def roundToDouble (n : Nat) : Nat :=
  let shift := n.log2 - 52
  let kept := n >>> shift
  let lost := n - kept <<< shift
  let step := 1 <<< shift
  (if 2 * lost > step || (2 * lost == step && kept % 2 == 1) then kept + 1 else kept) <<< shift

/-- The product of the rounded significand and the rounded power of ten is finite as a double.  For
a negative power, one divides by a power of ten, so that only the significand matters. -/
def isProductFinite (d : Decimal) : Bool :=
  match d.exponent with
  | .ofNat e =>
    d.significand == 0 ||
      (e ≤ largestPower &&
        roundToDouble d.significand * roundToDouble (Nat.pow 10 e) < doubleLimit)
  | .negSucc _ => roundToDouble d.significand < doubleLimit

/-- Reads digits behind a number as long as it fits in 64 bits. -/
def takeDigits (n : Nat) : List Char → Nat × List Char
  | [] => (n, [])
  | d :: ds =>
    let next := n * 10 + (d.toNat - '0'.toNat)
    if next < UInt64.size then takeDigits next ds else (n, d :: ds)

/-- The number with the given digits in front of the point and behind it, and the given power of
ten.  From the first digit on with which it would not fit in 64 bits the digits only count by their
places. -/
def ofLeadingDigits (whole fraction : List Char) (exponent : Int) : Decimal :=
  let (n, skipped) := takeDigits 0 whole
  let (n, unread) := takeDigits n fraction
  { significand := n
    exponent := exponent + skipped.length - (fraction.length - unread.length : Nat) }

end Decimal

end Bindery
