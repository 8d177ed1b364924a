import LetLang.Message
import LetLang.Text.Basic

/-!
# Faults

Everything that can go wrong with a program, as a cause and a place. The wording of each
cause is given once, by `Cause.message`. The snippet that a cause quotes first is the text
that the place points at.
-/

namespace LetLang

/-- The kinds of faults. `language` is the most general one. -/
inductive Kind
  | language
  | lexical
  | grammar
  | symbol
  | duplicate
  | unknown
  | reserved
  | constant
  | operand
  | target
  | zeroDivision
  | internal
deriving DecidableEq, Repr

namespace Kind

/-- The next more general kind. -/
def parent? : Kind → Option Kind
  | language => none
  | duplicate | unknown | reserved => some symbol
  | target => some operand
  | lexical | grammar | symbol | constant | operand | zeroDivision | internal =>
      some language

/-- The kind and all more general ones, from the most special to the most general. -/
def lineage (k : Kind) : List Kind :=
  match k.parent? with
  | none => [k]
  | some p => k :: p :: p.parent?.toList

end Kind

/-- Why a program is refused or stops. -/
inductive Cause
  /-- A character that starts no token. -/
  | unexpectedCharacter (c : Char)
  /-- A string literal without a closing quote; `rest` is all the text from its opening
  quote on. -/
  | unterminatedString (rest : String)
  /-- A number literal with a second point, which ends `literal`. -/
  | extraPoint (literal : String)
  /-- A number literal that is only a point. -/
  | noDigits (literal : String)
  /-- A keyword of a conditional statement, for which there is no grammar. -/
  | conditional (keyword : String)
  /-- A declaration without a name. -/
  | expectedName (keyword found : String)
  /-- A constant declared without a value. -/
  | constantWithoutValue (name : String)
  /-- A declared name followed by neither a value nor the end of the declaration. -/
  | expectedValue (found : String)
  /-- A declaration without its semicolon. -/
  | expectedSemicolon (found : String)
  /-- An opening parenthesis without its closing one. -/
  | expectedClosing (found : String)
  /-- A token that starts no expression. -/
  | unexpectedToken (found : String)
  /-- A name declared twice in one scope. -/
  | alreadyDeclared (name : String)
  /-- A name that no scope declares. -/
  | notDeclared (name : String)
  /-- An assignment to the name of a built-in value. -/
  | reservedName (name : String)
  /-- An assignment to a constant. -/
  | constantName (name : String)
  /-- A unary operator applied to a value of another type. -/
  | unaryOperand (operator type : String)
  /-- An operator that is no arithmetic operator, applied to numbers. -/
  | notArithmetic (operator : String)
  /-- An operator that is no logical operator, applied to comparable values. -/
  | notLogical (operator : String)
  /-- A binary operator applied to types that it does not join. -/
  | mismatch (operator left right : String)
  /-- A division by zero. -/
  | divisionByZero
  /-- An assignment to something that is no name. -/
  | notAssignable (kind : String)
  /-- A tree that has no meaning. -/
  | notEvaluable (kind : String)
deriving DecidableEq, Repr

namespace Cause

/-- The kind of fault that the cause leads to. -/
def kind : Cause → Kind
  | unexpectedCharacter _ | unterminatedString _ | extraPoint _ | noDigits _ => .lexical
  | conditional _ | expectedName _ _ | constantWithoutValue _ | expectedValue _
  | expectedSemicolon _ | expectedClosing _ | unexpectedToken _ => .grammar
  | alreadyDeclared _ => .duplicate
  | notDeclared _ => .unknown
  | reservedName _ => .reserved
  | constantName _ => .constant
  | unaryOperand _ _ | notArithmetic _ | notLogical _ | mismatch _ _ _ => .operand
  | divisionByZero => .zeroDivision
  | notAssignable _ => .target
  | notEvaluable _ => .internal

/-- The snippet of source text that the cause is about. -/
def snippet : Cause → String
  | unexpectedCharacter c => String.singleton c
  | unterminatedString text | extraPoint text | noDigits text | conditional text
  | expectedName _ text | constantWithoutValue text | expectedValue text
  | expectedSemicolon text | expectedClosing text | unexpectedToken text
  | alreadyDeclared text | notDeclared text | reservedName text | constantName text
  | unaryOperand text _ | notArithmetic text | notLogical text | mismatch text _ _
  | notAssignable text | notEvaluable text => text
  | divisionByZero => "/"

/-- How many characters are marked in a report: those of the snippet and at least one,
unless the snippet does not stand in the text as one word. -/
def length : Cause → Nat
  | unterminatedString _ | notAssignable _ => 1
  | mismatch operator _ _ => operator.length
  | c => max c.snippet.length 1

/-- The words that describe the cause. -/
def message (c : Cause) : Message :=
  match c with
  | unexpectedCharacter _ =>
      [.words "unexpected character '", .snippet c.snippet, .words "'"]
  | unterminatedString rest =>
      [.words "unterminated string literal '", .snippet rest, .words "'"]
  | extraPoint literal =>
    [.words "too many decimal points in number literal '", .snippet literal, .words "'"]
  | noDigits literal =>
      [.words "number literal '", .snippet literal, .words "' has no digits"]
  | conditional keyword =>
    [.words "conditional statements are not supported: '", .snippet keyword, .words "'"]
  | expectedName keyword found =>
    [.words ("expected identifier after '" ++ keyword ++ "', got '"),
      .snippet found, .words "'"]
  | constantWithoutValue name =>
      [.words "constant '", .snippet name, .words "' must have a value"]
  | expectedValue found =>
    [.words "expected '=' or ';' after identifier in declaration, got '",
      .snippet found, .words "'"]
  | expectedSemicolon found =>
    [.words "expected ';' after variable declaration, got '", .snippet found, .words "'"]
  | expectedClosing found =>
    [.words "expected ')' to close parenthesized expression, got '",
      .snippet found, .words "'"]
  | unexpectedToken found => [.words "unexpected token '", .snippet found, .words "'"]
  | alreadyDeclared name =>
      [.words "variable '", .snippet name, .words "' is already declared"]
  | notDeclared name => [.words "symbol '", .snippet name, .words "' was not declared"]
  | reservedName name => [.words "cannot assign to built-in '", .snippet name, .words "'"]
  | constantName name =>
      [.words "constant '", .snippet name, .words "' cannot be reassigned"]
  | unaryOperand operator type =>
    [.words "invalid unary operation '", .snippet operator, .words "' on ", .snippet type]
  | notArithmetic operator =>
      [.words "invalid arithmetic operator '", .snippet operator, .words "'"]
  | notLogical operator =>
      [.words "invalid logical operator '", .snippet operator, .words "'"]
  | mismatch operator left right =>
    [.words "invalid operation '", .snippet operator, .words "' between ",
      .snippet left, .words " and ", .snippet right]
  | divisionByZero => [.words "division by zero"]
  | notAssignable kind => [.words "invalid left-hand side of assignment: ", .snippet kind]
  | notEvaluable kind => [.words "'", .snippet kind, .words "' is not an evaluable node"]

end Cause

/-- A cause and the place it is found at. -/
structure Fault where
  cause : Cause
  pos : Pos
deriving DecidableEq, Repr

end LetLang
