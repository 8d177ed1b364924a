import LetLang.Number.Binary64
import LetLang.Text.Basic

/-!
# Decimal numerals

How numbers are read from source text, and how they are written. A number is written with
the fewest digits that read back as the same number, and of several such numerals with the
nearest, a tie going to the even digit.
-/

namespace LetLang
namespace Decimal

open Binary64

/-- Denominator of the decimal fractions in which every finite number has an
exact value. -/
def grain : Nat := Nat.pow 10 1074

/-- The value of a numeral: digits with at most one point among them. -/
def read (numeral : List Char) : Float :=
  let whole := numeral.takeWhile (· ≠ '.')
  let fraction := (numeral.dropWhile (· ≠ '.')).drop 1
  ofRatio false (Nat.ofDigitChars 10 (whole ++ fraction) 0) (Nat.pow 10 fraction.length)

/-- The better of the two neighbours of `value` with only `digits` digits, if one of them
is accepted. The result counts grains, as `value` does. -/
def roundedTo (accepts : Nat → Bool) (value digits : Nat) : Option Nat :=
  let step := Nat.pow 10 ((Nat.toDigits 10 value).length - digits)
  let low := value / step * step
  let high := low + step
  match accepts low, accepts high with
  | true, true => some (roundDiv value step * step)
  | true, false => some low
  | false, true => some high
  | false, false => none

/-- The numeral with fewest digits, in grains, for the positive number of `units`: it is to
read back as the same number. Seventeen digits always suffice, and the exact value would do
where they did not. -/
def shortest (units : Nat) : Nat :=
  let value := units * Nat.pow 5 1074
  let bits := nearestBits units unitsPerOne
  let accepts := fun grains => nearestBits grains grain == bits
  ((List.range 17).findSome? fun n => roundedTo accepts value (n + 1)).getD value

/-- Significant digits, with the power of ten of the first of them. -/
structure Scientific where
  digits : List Char
  exponent : Int

/-- The significant digits of a positive number of grains. -/
def Scientific.ofGrains (n : Nat) : Scientific :=
  let digits := Nat.toDigits 10 n
  ⟨Text.dropTrailing (· == '0') digits, (digits.length : Int) - 1075⟩

/-- The choices of a written form. -/
structure Layout where
  /-- The least exponent written without an exponent part. -/
  positionalFrom : Int
  /-- The exponent at which the exponent part begins to be written. -/
  positionalBelow : Int
  /-- The least number of digits in an exponent part. -/
  exponentWidth : Nat

/-- Digits around a point, at least one on each side of it. -/
def Scientific.positional (s : Scientific) : List Char :=
  match s.exponent with
  | .ofNat e =>
    let whole := s.digits.take (e + 1)
    let fraction := s.digits.drop (e + 1)
    whole ++ List.replicate (e + 1 - whole.length) '0' ++
      '.' :: (if fraction.isEmpty then ['0'] else fraction)
  | .negSucc e => '0' :: '.' :: List.replicate e '0' ++ s.digits

/-- One digit, the others after a point, and a signed exponent. -/
def Scientific.exponential (width : Nat) (s : Scientific) : List Char :=
  let fraction := s.digits.drop 1
  let power := Nat.toDigits 10 s.exponent.natAbs
  s.digits.take 1 ++ (if fraction.isEmpty then [] else '.' :: fraction) ++
    'e' :: (if s.exponent < 0 then '-' else '+') :: List.replicate
      (width - power.length) '0' ++ power

/-- The numeral in the form that its exponent calls for. -/
def Layout.render (l : Layout) (s : Scientific) : List Char :=
  if l.positionalFrom ≤ s.exponent ∧ s.exponent < l.positionalBelow then
    s.positional
  else
    s.exponential l.exponentWidth

/-- Numerals are positional from `0.0001` to below `10 ^ 16`; an exponent has a sign and at
least two digits. -/
def layout : Layout := ⟨-4, 16, 2⟩

/-- The sign of a numeral. -/
def sign (negative : Bool) : List Char :=
  if negative then ['-'] else []

/-- The numeral of a number, which always shows a point or an exponent. -/
def numeral (x : Float) : String :=
  match view x with
  | .notANumber => "nan"
  | .infinite negative => String.ofList (sign negative ++ ['i', 'n', 'f'])
  | .finite negative units =>
    String.ofList <| sign negative ++
      if units = 0 then ['0', '.', '0']
        else layout.render (Scientific.ofGrains (shortest units))

/-- The text of a number as the language displays it: a whole number without a point, and
zero without a sign. -/
def display (x : Float) : String :=
  match view x with
  | .notANumber => "NaN"
  | .infinite negative => String.ofList (sign negative ++ "Infinity".toList)
  | .finite negative units =>
    if units % unitsPerOne = 0 then
      String.ofList (sign (negative && units != 0) ++
        Nat.toDigits 10 (units / unitsPerOne))
    else
      numeral x

end Decimal
end LetLang
