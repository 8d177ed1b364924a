import LetLang.Fault
import LetLang.Operator
import LetLang.Value.Basic

/-!
# Operations on values

What the operators do once their operands are values. Operators are given by their symbols,
so a symbol outside the language is possible and has an answer of its own. Main statements:
`arithmetic` joins texts if an operand is a string and computes with numbers otherwise,
truth values counting as one and zero; `logical` always gives a truth value.
-/

namespace LetLang

/-- The number that an arithmetic operator computes. -/
def ArithOp.compute : ArithOp → Float → Float → Float
  | .add, x, y => x + y
  | .sub, x, y => x - y
  | .mul, x, y => x * y
  | .div, x, y => x / y
  | .rem, x, y => Binary64.remainder x y

/-- The answer of a logical operator on numbers. As a condition, every number but
zero holds. -/
def LogicOp.decides : LogicOp → Float → Float → Bool
  | .and, x, y => x != 0 && y != 0
  | .or, x, y => x != 0 || y != 0
  | .gt, x, y => decide (x > y)
  | .lt, x, y => decide (x < y)
  | .ge, x, y => decide (x ≥ y)
  | .le, x, y => decide (x ≤ y)
  | .eq, x, y => x == y
  | .ne, x, y => x != y

namespace Value

/-- The value is a string. -/
def isString : Value → Bool
  | string _ => true
  | _ => false

/-- The value as a number, a truth value counting as one or zero. -/
def toNumber? : Value → Option Float
  | number x => some x
  | bool true => some 1
  | bool false => some 0
  | _ => none

/-- A minus sign negates numbers, an exclamation mark truth values. -/
def unary (symbol : String) (operand : Value) : Except Cause Value :=
  match symbol, operand with
  | "-", number x => .ok (number (-x))
  | "!", bool b => .ok (bool !b)
  | _, _ => .error (.unaryOperand symbol operand.typeName)

/-- An arithmetic operator between two numbers. -/
def numeric (symbol : String) (x y : Float) : Except Cause Value :=
  match ArithOp.ofSymbol? symbol with
  | none => .error (.notArithmetic symbol)
  | some op =>
    if op = .div ∧ (y == 0) = true then .error .divisionByZero
      else .ok (number (op.compute x y))

/-- An arithmetic operator between two values. Only `+` goes with strings. Null takes part
in nothing. -/
def arithmetic (symbol : String) (l r : Value) : Except Cause Value :=
  if l.isString || r.isString then
    if symbol = "+" then .ok (string (l.text ++ r.text))
    else .error (.mismatch symbol l.typeName r.typeName)
  else
    match l.toNumber?, r.toNumber? with
    | some x, some y => numeric symbol x y
    | _, _ => .ok null

/-- A logical operator between two values. Strings are only compared for equality, and null
compares as false. -/
def logical (symbol : String) (l r : Value) : Except Cause Value :=
  if l.isString || r.isString then
    if symbol = "==" then .ok (bool (l.same r))
    else if symbol = "!=" then .ok (bool !(l.same r))
    else .error (.mismatch symbol l.typeName r.typeName)
  else
    match l.toNumber?, r.toNumber? with
    | some x, some y =>
      match LogicOp.ofSymbol? symbol with
      | none => .error (.notLogical symbol)
      | some op => .ok (bool (op.decides x y))
    | _, _ => .ok (bool false)

end Value
end LetLang
