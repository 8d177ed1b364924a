/-!
# Binary64 numbers as whole multiples of a unit

Every finite binary64 number is a whole multiple of `2 ^ -1074`, so its magnitude is a
natural number of such units. This makes three operations exact by definition: rounding a
quotient to the nearest number, taking the remainder of a division, and telling whole
numbers from others.
-/

namespace LetLang
namespace Binary64

/-- How many units of `2 ^ -1074` make one. -/
def unitsPerOne : Nat := Nat.pow 2 1074

/-- The fraction field has fifty-two bits. -/
def fractionSize : Nat := 0x10000000000000

/-- The exponent field has eleven bits. -/
def exponentSize : Nat := 0x800

/-- The value of the sign bit, above both fields. -/
def signBit : Nat := 0x8000000000000000

/-- The bit pattern of positive infinity. -/
def infinityBits : Nat := 0x7FF0000000000000

/-- The number that results where there is none. -/
def notANumber : Float := Float.ofBits 0x7FF8000000000000

/-- What a binary64 number stands for. -/
inductive View
  | notANumber
  | infinite (negative : Bool)
  | finite (negative : Bool) (units : Nat)
deriving DecidableEq

/-- Reads the sign, exponent and fraction fields of a number. -/
def view (x : Float) : View :=
  let bits := x.toBits.toNat
  let negative := decide (signBit ≤ bits)
  let exponent := bits / fractionSize % exponentSize
  let fraction := bits % fractionSize
  if exponent = 0x7FF then
    if fraction = 0 then .infinite negative else .notANumber
  else if exponent = 0 then
    .finite negative fraction
  else
    .finite negative ((fractionSize + fraction) * Nat.pow 2 (exponent - 1))

/-- The quotient `num / den` to the nearest natural number, a half going to the
even one. -/
def roundDiv (num den : Nat) : Nat :=
  let q := num / den
  let twice := 2 * (num % den)
  if twice < den then q
  else if den < twice then q + 1
  else q + q % 2

/--
The bit pattern of the number nearest to `num / den`, ties going to the even pattern, and
infinity beyond the largest number.
-/
def nearestBits (num den : Nat) : Nat :=
  let units := num * unitsPerOne
  let shift := (units / den).log2 - 52
  -- A carry out of the rounding moves on to the next exponent by itself, because bit
  -- patterns are ordered as the numbers are.
  min (roundDiv units (den * Nat.pow 2 shift) + shift * fractionSize) infinityBits

/-- The number with the given sign and the given bits below the sign. -/
def ofBits (negative : Bool) (bits : Nat) : Float :=
  Float.ofBits (UInt64.ofNat (if negative then signBit + bits else bits))

/-- The number nearest to the quotient `num / den`. -/
def ofRatio (negative : Bool) (num den : Nat) : Float :=
  ofBits negative (nearestBits num den)

/-- The number of that many units, or the nearest to it. -/
def ofUnits (negative : Bool) (units : Nat) : Float :=
  ofRatio negative units unitsPerOne

/--
The remainder of the division of `x` by `y`, with the sign of `x`. There is none if `x` is
infinite or `y` is zero.
-/
def remainder (x y : Float) : Float :=
  match view x, view y with
  | .finite negative a, .finite _ b =>
    -- The remainder is exact, since both numbers are multiples of one unit.
    if b = 0 then notANumber else ofUnits negative (a % b)
  | .finite _ _, .infinite _ => x
  | _, _ => notANumber

end Binary64
end LetLang
