import LetLang.Text.Basic
import LetLang.Token.Basic

/-!
# Syntax trees

The trees that programs are read into. Each node carries the position of the token it was
made from, a declaration also that of its name and an operation that of its operator.
Operators are kept by their symbols. The type also holds trees that no program text has:
conditional branches, operations of neither family, and nodes of a kind unknown to the
language, which have no meaning.
-/

namespace LetLang

/-- The families of operations between two operands. -/
inductive Family
  | arithmetic
  | logical
  | untyped
deriving DecidableEq, Repr

/-- A syntax tree. -/
inductive Node
  /-- Statements in order. -/
  | program (pos : Pos) (body : List Node)
  /-- A name bound to a value, or to null if none is given. -/
  | declaration (pos : Pos) (name : String) (namePos : Pos) (constant :
      Bool) (value : Option Node)
  /-- A block that depends on a condition. -/
  | conditional (pos : Pos) (branch : Branch) (condition : Node) (block : List Node)
  /-- The value of a name. -/
  | identifier (pos : Pos) (name : String)
  /-- A number literal. -/
  | number (pos : Pos) (x : Float)
  /-- A string literal. -/
  | string (pos : Pos) (text : String)
  /-- An operator between two operands. -/
  | operation (family : Family) (pos : Pos) (operator :
      String) (operatorPos : Pos) (left right : Node)
  /-- An operator before its operand. -/
  | unary (pos : Pos) (operator : String) (operand : Node)
  /-- A value assigned to a target, which has a meaning only if it is an identifier. -/
  | assignment (pos : Pos) (target value : Node)
  /-- A node of an unknown kind. -/
  | unknown (pos : Pos) (kindName : String)

instance : Inhabited Node := ⟨.program .unknown []⟩

/-- The name of a family's operations. -/
def Family.kindName : Family → String
  | arithmetic => "BinaryExpr"
  | logical => "LogicalExpr"
  | untyped => "OperatorExpr"

/-- The family to which a binary operator belongs. -/
def BinaryOp.family : BinaryOp → Family
  | arith _ => .arithmetic
  | logic _ => .logical

namespace Node

/-- Where the node stands. -/
def pos : Node → Pos
  | program p _ | declaration p _ _ _ _ | conditional p _ _ _ | identifier p _
  | number p _ | string p _ | operation _ p _ _ _ _ | unary p _ _ | assignment p _ _
  | unknown p _ => p

/-- The name of the node's kind. -/
def kindName : Node → String
  | program .. => "Program"
  | declaration .. => "VariableDeclaration"
  | conditional .. => "ControlFlow"
  | identifier .. => "Identifier"
  | number .. => "NumericLiteral"
  | string .. => "StringLiteral"
  | operation family .. => family.kindName
  | unary .. => "UnaryExpr"
  | assignment .. => "AssignmentExpr"
  | unknown _ name => name

/-- The statements of a program. -/
def statements : Node → List Node
  | program _ body => body
  | _ => []

mutual

/-- Equality of trees up to positions. Numbers are compared as numbers, so zero equals
minus zero. -/
def same : Node → Node → Bool
  | program _ xs, program _ ys => sameAll xs ys
  | declaration _ n _ c none, declaration _ m _ d none => n == m && c == d
  | declaration _ n _ c (some x), declaration _ m _ d (some y) =>
      n == m && c == d && same x y
  | conditional _ b x xs, conditional _ c y ys => b == c && same x y && sameAll xs ys
  | identifier _ n, identifier _ m => n == m
  | number _ x, number _ y => x == y
  | string _ s, string _ t => s == t
  | operation f _ o _ l r, operation g _ p _ k s =>
      f == g && o == p && same l k && same r s
  | unary _ o x, unary _ p y => o == p && same x y
  | assignment _ s x, assignment _ t y => same s t && same x y
  | unknown _ n, unknown _ m => n == m
  | _, _ => false

/-- Equality of lists of trees up to positions. -/
def sameAll : List Node → List Node → Bool
  | [], [] => true
  | x :: xs, y :: ys => same x y && sameAll xs ys
  | _, _ => false

end

end Node
end LetLang
