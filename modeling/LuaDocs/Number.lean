/-!
# Rounded numbers

Sizes and speeds are computed with 53 binary digits and are shown with a fixed number of decimal
places. Both roundings go to the nearest number, and a number in the middle goes to the even side.
-/

namespace LuaDocs.Number

/-- The whole number nearest to a fraction that is not negative; a half goes to the even side. -/
def roundQuotient (num den : Nat) : Nat :=
  let q := num / den
  let rest := 2 * (num % den)
  if rest < den then q
  else if den < rest then q + 1
  else q + q % 2

/-- The whole number nearest to the size of `x`. -/
def round (x : Rat) : Nat := roundQuotient x.num.natAbs x.den

/-- The power of two with a whole exponent. -/
def twoPow (e : Int) : Rat :=
  if 0 ≤ e then (Nat.pow 2 e.toNat : Rat) else 1 / (Nat.pow 2 (-e).toNat : Rat)

/-- The exponent of the last binary digit that is kept of `x`: there are 53 digits unless that
would go below the least exponent. -/
def lastExponent (x : Rat) : Int :=
  let guess : Int := x.num.natAbs.log2 - x.den.log2 - 53
  let e := if round (x / twoPow guess) < Nat.pow 2 53 then guess else guess + 1
  if e < -1074 then -1074 else e

/-- The number with 53 binary digits that is nearest to `x`. -/
def nearest (x : Rat) : Rat :=
  let unit := twoPow (lastExponent x)
  let size := (round (x / unit) : Rat) * unit
  if x < 0 then -size else size

/-- The number `mantissa * 10 ^ exponent` with 53 binary digits. -/
def ofDecimal (mantissa exponent : Int) : Rat :=
  nearest (if 0 ≤ exponent then mantissa * (Nat.pow 10 exponent.toNat : Rat)
    else mantissa / (Nat.pow 10 (-exponent).toNat : Rat))

/-- The digits of a number of units of which `10 ^ places` make a whole. -/
def withPoint (places units : Nat) : String :=
  if places == 0 then toString units
  else
    let digits := (Nat.toDigits 10 units).leftpad (places + 1) '0'
    let whole := digits.length - places
    String.ofList (digits.take whole ++ '.' :: digits.drop whole)

/-- The size of `x` with `places` decimal places. -/
def fixedSize (places : Nat) (x : Rat) : String :=
  withPoint places (round (x * (Nat.pow 10 places : Rat)))

/-- The number `x` with `places` decimal places; a negative number keeps its sign even if all
digits are zero. -/
def fixed (places : Nat) (x : Rat) : String :=
  (if x < 0 then "-" else "") ++ fixedSize places x

end LuaDocs.Number
