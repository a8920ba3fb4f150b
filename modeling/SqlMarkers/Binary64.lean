/-
SqlMarkers.Binary64 — double-precision numbers as bit patterns, read from
decimals and written as decimals in exact integer arithmetic.

A finite pattern stands for `mantissa · 2 ^ exponent`. Two functions
tie patterns to decimals:

* `nearest` rounds a decimal to the closest pattern, a tie going to the even
  mantissa, and to infinity beyond the largest finite number;
* `shortest` gives the fewest decimal digits that `nearest` reads back as
  the same pattern, and among those the closest to it.

`render` is the text of a number in a statement: a whole number keeps one
decimal place, and no number is written with an exponent.
-/
namespace SqlMarkers

/-- A double-precision number, by its bits. -/
structure Binary64 where
  bits : UInt64
deriving DecidableEq, Repr, Inhabited

namespace Binary64

/-- The power `2 ^ n`. -/
def twoPow (n : Nat) : Nat := Nat.pow 2 n

/-- The power `10 ^ n`. -/
def tenPow (n : Nat) : Nat := Nat.pow 10 n

/-! ## Parts of a pattern -/

/-- The bits below the sign. -/
def magnitude (x : Binary64) : Nat := x.bits.toNat % twoPow 63

/-- Whether the sign bit is set. -/
def isNegative (x : Binary64) : Bool := decide (twoPow 63 ≤ x.bits.toNat)

/-- The magnitude of infinity. -/
def infinity : Nat := 0x7FF * twoPow 52

/-- Whether a pattern stands for a number. -/
def isFinite (x : Binary64) : Bool := decide (x.magnitude < infinity)

/-- The integer `m` of the value `m · 2 ^ e`. -/
def mantissa (x : Binary64) : Nat :=
  if x.magnitude / twoPow 52 = 0 then x.magnitude else twoPow 52 + x.magnitude % twoPow 52

/-- The exponent `e` of the value `m · 2 ^ e`. -/
def exponent (x : Binary64) : Int :=
  if x.magnitude / twoPow 52 = 0 then -1074 else (x.magnitude / twoPow 52 : Nat) - 1075

/-- The pattern with the given sign and magnitude. -/
def ofParts (negative : Bool) (magnitude : Nat) : Binary64 :=
  ⟨UInt64.ofNat (magnitude + if negative then twoPow 63 else 0)⟩

/-! ## From a decimal to the nearest pattern -/

/-- `num / den` rounded to an integer, a half going to the even neighbour. -/
def roundQuotient (num den : Nat) : Nat :=
  let q := num / den
  let r := num % den
  if den < 2 * r ∨ (den = 2 * r ∧ q % 2 = 1) then q + 1 else q

/-- The numerator and denominator of `num / den · 2 ^ (-e)`. -/
def scaled (num den : Nat) (e : Int) : Nat × Nat :=
  if 0 ≤ e then (num, den * twoPow e.toNat) else (num * twoPow (-e).toNat, den)

/-- The exponent at which `num / den` has a mantissa of 53 bits, or the least
exponent if that is larger. -/
def fittingExponent (num den : Nat) : Int :=
  let e : Int := (num.log2 : Int) - (den.log2 : Int) - 52
  let (n, d) := scaled num den e
  max (if n < d * twoPow 52 then e - 1 else e) (-1074)

/-- The magnitude nearest to the positive quotient `num / den`. -/
def nearestMagnitude (num den : Nat) : Nat :=
  let e := fittingExponent num den
  let (n, d) := scaled num den e
  min ((e + 1074).toNat * twoPow 52 + roundQuotient n d) infinity

/-- The number of decimal digits of `m`. -/
def digitCount (m : Nat) : Nat := (Nat.toDigits 10 m).length

/-- The pattern nearest to `m · 10 ^ e`, with the given sign. A decimal below
`10 ^ (-330)` is zero and one from `10 ^ 310` on is infinite, so no power
larger than the digits warrant is ever computed. -/
def nearest (negative : Bool) (m : Nat) (e : Int) : Binary64 :=
  ofParts negative <|
    if m = 0 ∨ (digitCount m : Int) + e ≤ -330 then 0
    else if 310 < (digitCount m : Int) + e then infinity
    else if 0 ≤ e then nearestMagnitude (m * tenPow e.toNat) 1
    else nearestMagnitude m (tenPow (-e).toNat)

/-! ## From a pattern to its shortest decimal -/

/-- A positive decimal `digits · 10 ^ exponent`. -/
structure Decimal where
  digits : Nat
  exponent : Int
deriving DecidableEq, Repr

/-- `num / den · 10 ^ (-p)` as a quotient. -/
def scaledTen (num den : Nat) (p : Int) : Nat × Nat :=
  if 0 ≤ p then (num, den * tenPow p.toNat) else (num * tenPow (-p).toNat, den)

/-- The value of a pattern without its sign, as a quotient. -/
def quotient (x : Binary64) : Nat × Nat :=
  if 0 ≤ x.exponent then (x.mantissa * twoPow x.exponent.toNat, 1)
  else (x.mantissa, twoPow (-x.exponent).toNat)

/-- The exponent of the leading decimal digit of the positive `num / den`. -/
def leadingPlace (num den : Nat) : Int :=
  let guess : Int := (digitCount num : Int) - (digitCount den : Int)
  let (n, d) := scaledTen num den guess
  if n < d then guess - 1 else guess

/-- Of the two decimals around `x` with `count` digits the nearer one that
reads back as `x`, the larger one in a tie. -/
def candidate? (x : Binary64) (count : Nat) : Option Decimal :=
  let (num, den) := x.quotient
  let place := leadingPlace num den - count + 1
  let (n, d) := scaledTen num den place
  let low : Decimal := ⟨n / d, place⟩
  let high : Decimal :=
    if n / d + 1 = tenPow count then ⟨1, place + count⟩ else ⟨n / d + 1, place⟩
  let reads (c : Decimal) : Bool := (nearest false c.digits c.exponent).magnitude == x.magnitude
  let (first, second) := if d ≤ 2 * (n % d) then (high, low) else (low, high)
  if reads first then some first else if reads second then some second else none

/-- The shortest decimal of at least `count` digits, trying `fuel` counts. -/
def shortestFrom (x : Binary64) : Nat → Nat → Decimal
  | 0, _ => ⟨0, 0⟩
  | fuel + 1, count => (candidate? x count).getD (shortestFrom x fuel (count + 1))

/-- The fewest digits that read back as `x`; seventeen are always enough. -/
def shortest (x : Binary64) : Decimal := shortestFrom x 17 1

/-! ## The text of a number -/

/-- A decimal without an exponent. -/
def Decimal.render (v : Decimal) : String :=
  let ds := Nat.toDigits 10 v.digits
  if 0 ≤ v.exponent then String.ofList (ds ++ List.replicate v.exponent.toNat '0')
  else
    let places := (-v.exponent).toNat
    let padded := List.replicate (places + 1 - ds.length) '0' ++ ds
    let whole := padded.length - places
    String.ofList (padded.take whole ++ ('.' :: padded.drop whole))

/-- Whether a finite pattern stands for a whole number. -/
def isWhole (x : Binary64) : Bool :=
  let (num, den) := x.quotient
  num % den == 0

/-- The text of a number: a whole number with all its digits and one decimal
place, any other finite number with its shortest digits. -/
def render (x : Binary64) : String :=
  if x.isFinite then
    let sign := if x.isNegative then "-" else ""
    if x.isWhole then
      let (num, den) := x.quotient
      sign ++ toString (num / den) ++ ".0"
    else sign ++ x.shortest.render
  else if x.magnitude = infinity then (if x.isNegative then "-inf" else "inf")
  else "NaN"

end Binary64

end SqlMarkers
