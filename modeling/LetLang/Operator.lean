/-!
# Operators

The operator symbols of the language. Arithmetic operators compute numbers, logical
operators decide, and each binary operator has a level: the higher the level, the tighter
it binds. Assignment binds looser than every level and the signs of unary expressions
tighter.
-/

namespace LetLang

/-- The operators that compute with two numbers. -/
inductive ArithOp
  | add
  | sub
  | mul
  | div
  | rem
deriving DecidableEq, Repr

/-- The operators that compare two values or connect two conditions. -/
inductive LogicOp
  | and
  | or
  | gt
  | lt
  | ge
  | le
  | eq
  | ne
deriving DecidableEq, Repr

/-- The operators that stand between two operands. -/
inductive BinaryOp
  | arith (op : ArithOp)
  | logic (op : LogicOp)
deriving DecidableEq, Repr

/-- All operator symbols. The minus sign is an arithmetic operator, wherever it stands. -/
inductive Operator
  | binary (op : BinaryOp)
  | assign
  | not
deriving DecidableEq, Repr

namespace ArithOp

/-- How the operator is written. -/
def symbol : ArithOp → String
  | add => "+"
  | sub => "-"
  | mul => "*"
  | div => "/"
  | rem => "%"

/-- The operator that is written so. -/
def ofSymbol? : String → Option ArithOp
  | "+" => some add
  | "-" => some sub
  | "*" => some mul
  | "/" => some div
  | "%" => some rem
  | _ => none

@[simp] theorem ofSymbol?_symbol (op : ArithOp) : ofSymbol? op.symbol = some op := by
  cases op <;> rfl

end ArithOp

namespace LogicOp

/-- How the operator is written. -/
def symbol : LogicOp → String
  | and => "&&"
  | or => "||"
  | gt => ">"
  | lt => "<"
  | ge => ">="
  | le => "<="
  | eq => "=="
  | ne => "!="

/-- The operator that is written so. -/
def ofSymbol? : String → Option LogicOp
  | "&&" => some and
  | "||" => some or
  | ">" => some gt
  | "<" => some lt
  | ">=" => some ge
  | "<=" => some le
  | "==" => some eq
  | "!=" => some ne
  | _ => none

@[simp] theorem ofSymbol?_symbol (op : LogicOp) : ofSymbol? op.symbol = some op := by
  cases op <;> rfl

end LogicOp

namespace BinaryOp

/-- How the operator is written. -/
def symbol : BinaryOp → String
  | arith op => op.symbol
  | logic op => op.symbol

/-- How tightly the operator binds, from one to six. -/
def level : BinaryOp → Nat
  | logic .or => 1
  | logic .and => 2
  | logic .eq | logic .ne => 3
  | logic .gt | logic .lt | logic .ge | logic .le => 4
  | arith .add | arith .sub => 5
  | arith .mul | arith .div | arith .rem => 6

theorem level_pos (op : BinaryOp) : 0 < op.level := by
  rcases op with op | op <;> cases op <;> decide

end BinaryOp

namespace Operator

/-- How the operator is written. -/
def symbol : Operator → String
  | binary op => op.symbol
  | assign => "="
  | not => "!"

/-- The operator at the start of a text, given as its first character and the others, and
how many of the others belong to it. The longest operator wins. -/
def scan? : Char → List Char → Option (Operator × Nat)
  | '=', '=' :: _ => some (binary (.logic .eq), 1)
  | '!', '=' :: _ => some (binary (.logic .ne), 1)
  | '&', '&' :: _ => some (binary (.logic .and), 1)
  | '|', '|' :: _ => some (binary (.logic .or), 1)
  | '>', '=' :: _ => some (binary (.logic .ge), 1)
  | '<', '=' :: _ => some (binary (.logic .le), 1)
  | '+', _ => some (binary (.arith .add), 0)
  | '-', _ => some (binary (.arith .sub), 0)
  | '*', _ => some (binary (.arith .mul), 0)
  | '/', _ => some (binary (.arith .div), 0)
  | '%', _ => some (binary (.arith .rem), 0)
  | '>', _ => some (binary (.logic .gt), 0)
  | '<', _ => some (binary (.logic .lt), 0)
  | '=', _ => some (assign, 0)
  | '!', _ => some (not, 0)
  | _, _ => none

end Operator
end LetLang
