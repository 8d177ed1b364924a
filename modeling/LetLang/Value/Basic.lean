import LetLang.Number.Decimal
import LetLang.Text.Quoted

/-!
# Values

The four types of values that programs compute with: null, numbers, strings and booleans.
-/

namespace LetLang

/-- The result of evaluating a program. -/
inductive Value
  | null
  | number (x : Float)
  | string (text : String)
  | bool (b : Bool)
deriving DecidableEq

namespace Value

/-- The name of the value's type. -/
def typeName : Value → String
  | null => "null"
  | number _ => "number"
  | string _ => "string"
  | bool _ => "bool"

/-- The text that the language shows for the value, and that is joined to strings. -/
def text : Value → String
  | null => "null"
  | number x => Decimal.display x
  | string s => s
  | bool true => "true"
  | bool false => "false"

/-- How a truth value is written inside a description. -/
def flag : Bool → String
  | true => "True"
  | false => "False"

/-- A description that tells values of different types apart. -/
def description : Value → String
  | null => "NullValue(value=None)"
  | number x => "NumberValue(value=" ++ Decimal.numeral x ++ ")"
  | string s => "StringValue(value=" ++ Text.quoted s ++ ")"
  | bool b => "BooleanValue(value=" ++ flag b ++ ")"

/-- A condition holds of true, of positive numbers and of strings that are not empty. -/
def isTruthy : Value → Bool
  | null => false
  | number x => decide (x > 0)
  | string s => s != ""
  | bool b => b

/-- The number nearest to a whole number. -/
def ofInt (n : Int) : Value :=
  number (Binary64.ofRatio (decide (n < 0)) n.natAbs 1)

/-- Equality of values of one type. As numbers, zero equals minus zero and nothing equals
what is not a number. -/
def same : Value → Value → Bool
  | null, null => true
  | number x, number y => x == y
  | string s, string t => s == t
  | bool a, bool b => a == b
  | _, _ => false

end Value
end LetLang
