/-
# Binary64 -- finite numbers of the format binary64, exactly

Every finite magnitude of the format is a whole number of `units`, the unit being
the least magnitude above zero, `2 ^ -1074`; the 53 leading bits of that number
are free and the others zero.  Operations compute an exact ratio and round it
once to the nearest such number, a tie to the one with an even last bit
(`roundRatio`); a result that would be no finite number is none.

`shown` writes the shortest decimal that rounds back to the number, of those the
nearest, without an exponent; `shownNested` gives one to numbers far from one.
-/
import TagTemplate.Text

namespace TagTemplate

set_option autoImplicit false

open Text

/-- A finite number of the format. -/
structure Binary64 where
  negative : Bool
  /-- The magnitude in units of `2 ^ -1074`. -/
  units : Nat
  deriving DecidableEq, Repr

namespace Binary64

/-- How many leading bits of a magnitude are free. -/
def precision : Nat := 53

def one : Nat := Nat.pow 2 1074

/-- The least units that are too many for a finite number. -/
def limit : Nat := Nat.pow 2 2098

/-! ## Rounding -/

/-- The whole number nearest to a ratio, of two the even one. -/
def nearest (num den : Nat) : Nat :=
  let q := num / den
  let twice := 2 * (num % den)
  if twice < den then q
  else if den < twice then q + 1
  else q + q % 2

/-- How many trailing bits of a whole number are not free. -/
def spare (n : Nat) : Nat := if n < Nat.pow 2 precision then 0 else n.log2 + 1 - precision

def roundRatio (num den : Nat) : Nat :=
  let step := Nat.pow 2 (spare (num / den))
  nearest num (den * step) * step

def ofUnits? (negative : Bool) (units : Nat) : Option Binary64 :=
  if units < limit then some ⟨negative, units⟩ else none

/-- The number nearest to `num / den`, if it is finite. -/
def ofRatio? (negative : Bool) (num den : Nat) : Option Binary64 :=
  ofUnits? negative (roundRatio (num * one) den)

/-- The power of ten nearest to `10 ^ n`, in units. -/
def tenPower (n : Nat) : Nat := roundRatio (Nat.pow 10 n * one) 1

def mulUnits (m n : Nat) : Nat := roundRatio (m * n) one

def divUnits (m n : Nat) : Nat := roundRatio (m * one) n

/-! ## Reading -/

def maxTenPower : Nat := 308

/-- The units of `m` divided by `10 ^ n` in at most `count` steps, each by a finite power of ten. -/
def divTenPower : Nat → Nat → Nat → Nat
  | 0, m, _ => m
  | count + 1, m, n =>
    if n ≤ maxTenPower then divUnits m (tenPower n)
    else divTenPower count (divUnits m (tenPower maxTenPower)) (n - maxTenPower)

/-- The number that a significand below `2 ^ 64` and a power of ten make, if it is finite.  The
significand, the power, and their product or quotient are rounded one after the other; the third
quotient by the greatest power is zero in any case. -/
def ofDecimal? (negative : Bool) (significand : Nat) (exponent : Int) : Option Binary64 :=
  let m := roundRatio (significand * one) 1
  if exponent < 0 then ofUnits? negative (divTenPower 3 m exponent.natAbs)
  else if exponent.natAbs ≤ maxTenPower then ofUnits? negative (mulUnits m (tenPower exponent.natAbs))
  else if significand = 0 then some ⟨negative, 0⟩
  else none

/-! ## Showing -/

/-- A decimal number: a whole number times a power of ten. -/
structure Decimal where
  digits : Nat
  exponent : Int
  deriving DecidableEq, Repr

/-- More decimal places than it takes to write the least number above zero or the greatest. -/
def manyPlaces : Nat := 400

def Decimal.units (d : Decimal) : Nat :=
  if d.exponent < 0 then roundRatio (d.digits * one) (Nat.pow 10 d.exponent.natAbs)
  else roundRatio (d.digits * one * Nat.pow 10 d.exponent.natAbs) 1

def Decimal.nearest? (d : Decimal) : Option Binary64 :=
  let size := (decimal d.digits).length + d.exponent
  if d.digits = 0 ∨ size < -manyPlaces then some ⟨false, 0⟩
  else if manyPlaces < size then none
  else ofUnits? false d.units

/-- A decimal without an exponent, with at least one digit on each side of the point. -/
def Decimal.positional (d : Decimal) : Text :=
  let places := (-d.exponent).toNat
  let written := decimal (d.digits * Nat.pow 10 d.exponent.toNat)
  let padded := List.replicate (places + 1 - written.length) '0' ++ written
  let fraction := dropEndWhile (· == '0') (padded.drop (padded.length - places))
  padded.take (padded.length - places) ++ '.' :: (if fraction.isEmpty then ['0'] else fraction)

/-- How many digits the whole part of some units has; less than one for zeros after the point. -/
def magnitude (units : Nat) : Int :=
  (decimal (units * Nat.pow 10 manyPlaces / one)).length - manyPlaces

/-- The decimal with an exponent that is nearest to some units and reads back as them, if one of the
two neighbours does; of two equally near the greater. -/
def readingBack? (units : Nat) (exponent : Int) : Option Decimal :=
  let num := units * Nat.pow 10 (-exponent).toNat
  let den := one * Nat.pow 10 exponent.toNat
  let below : Decimal := ⟨num / den, exponent⟩
  let above : Decimal := ⟨num / den + 1, exponent⟩
  let near := if 2 * (num % den) < den then [below, above] else [above, below]
  near.find? fun d => d.units == units

/-- The shortest decimal that reads back as some units above zero, with at least `17 - count` digits. -/
def shortest (units : Nat) : Nat → Decimal
  | 0 => (readingBack? units (magnitude units - 17)).getD ⟨0, 0⟩
  | count + 1 =>
    match readingBack? units (magnitude units - (16 - count)) with
    | some d => d
    | none => shortest units count

/-- A decimal with one digit before the point and an exponent; without a point after a lone digit. -/
def Decimal.scientific (d : Decimal) : Text :=
  let written := decimal d.digits
  let power := d.exponent + (written.length - 1 : Nat)
  let fraction := dropEndWhile (· == '0') (written.drop 1)
  written.take 1 ++ (if fraction.isEmpty then [] else '.' :: fraction) ++ 'e' ::
    (if power < 0 then '-' :: decimal power.natAbs else decimal power.natAbs)

def signed (x : Binary64) (written : Text) : Text := if x.negative then '-' :: written else written

def shown (x : Binary64) : Text :=
  x.signed (if x.units = 0 then "0.0".toList else (shortest x.units 16).positional)

/-- Whether a magnitude is written with an exponent among other values: from `10 ^ 16` on, and below
`10 ^ -4`. -/
def isExtreme (units : Nat) : Bool :=
  Nat.pow 10 16 * one ≤ units || (0 < units && units * Nat.pow 10 4 < one)

/-- The number in decimal, with an exponent if it is far from one. -/
def shownNested (x : Binary64) : Text :=
  if isExtreme x.units then x.signed (shortest x.units 16).scientific else x.shown

end Binary64

end TagTemplate
