import LetLang.Fault
import LetLang.Number.Decimal
import LetLang.Token.Scan
import LetLang.Tree.Basic

/-!
# Building a tree from tokens

The grammar of programs, from loose to tight:

* a program is a sequence of statements;
* a statement is a declaration, or an expression with or without a semicolon after it;
* a declaration is `let` or `const`, a name, then `;` or `=` with an expression and `;`. A
  constant needs a value;
* an expression assigns with `=`, to the right, or joins operands by binary operators, to
  the left, level by level;
* an operand is an identifier, a number, a string or an expression in parentheses, behind
  any number of signs `-` and `!`.

Tokens are taken one at a time. What is read of an unfinished expression is a list of
frames: an operator with its left operand, an assignment with its target, a sign, or an
open parenthesis, each of which waits for the node to its right. Before a binary operator
is put on the list, the frames that bind at least as tightly are filled. So a token is
refused as soon as nothing that follows it could make it right.
-/

namespace LetLang

/-- A node with a hole for the node that is read next. -/
inductive Frame
  | paren
  | sign (symbol : String) (pos : Pos)
  | binary (op : BinaryOp) (pos : Pos) (left : Node)
  | assign (target : Node)

namespace Frame

/-- Puts a node into the hole. -/
def fill : Frame → Node → Node
  | paren, n => n
  | sign symbol pos, n => .unary pos symbol n
  | binary op pos left, n => .operation op.family left.pos op.symbol pos left n
  | assign target, n => .assignment target.pos target n

/-- The frame takes the node before it, if what follows binds no tighter than `level`. Only
a closing parenthesis fills an open one. -/
def takes (level : Nat) : Frame → Bool
  | paren => false
  | sign _ _ => true
  | binary op _ _ => decide (level ≤ op.level)
  | assign _ => decide (level = 0)

/-- Fills the frames, innermost first, as long as they take the node before an operator of
that level. -/
def close (level : Nat) : List Frame → Node → List Frame × Node
  | [], n => ([], n)
  | f :: fs, n => if f.takes level then close level fs (f.fill n) else (f :: fs, n)

end Frame

/-- What the expression that is being read is for. -/
inductive Goal
  | statement
  | declaration (pos : Pos) (name : String) (namePos : Pos) (constant : Bool)

/-- The node that the finished expression makes. -/
def Goal.finish : Goal → Node → Node
  | statement, n => n
  | declaration pos name namePos constant, n =>
      .declaration pos name namePos constant (some n)

/-- What may come next. -/
inductive Stage
  /-- A statement. -/
  | ready
  /-- The name in a declaration. -/
  | name (pos : Pos) (constant : Bool)
  /-- The value or the end of a declaration. -/
  | value (pos : Pos) (name : String) (namePos : Pos) (constant : Bool)
  /-- An operand. -/
  | operand (goal : Goal) (frames : List Frame)
  /-- Whatever may follow the operand that has been read. -/
  | operator (goal : Goal) (frames : List Frame) (node : Node)

/-- A program of which some tokens have been read: its finished statements, newest first,
and what may come next. -/
structure Builder where
  finished : List Node
  stage : Stage

namespace Builder

/-- Nothing has been read. -/
def start : Builder := ⟨[], .ready⟩

/-- The keyword of a declaration. -/
def keyword (constant : Bool) : String :=
  (Lexeme.declare constant).text

/-- Reads a token where an operand is expected. -/
def operand (goal : Goal) (frames : List Frame) (t : Token) : Except Fault Stage :=
  match t.lexeme with
  | .identifier name => .ok (.operator goal frames (.identifier t.pos name))
  | .number digits =>
      .ok (.operator goal frames (.number t.pos (Decimal.read digits.toList)))
  | .string text => .ok (.operator goal frames (.string t.pos text))
  | .openParen => .ok (.operand goal (.paren :: frames))
  | .operator .not => .ok (.operand goal (.sign Operator.not.symbol t.pos :: frames))
  | .operator (.binary (.arith .sub)) =>
      .ok (.operand goal (.sign ArithOp.sub.symbol t.pos :: frames))
  | _ => .error ⟨.unexpectedToken t.lexeme.text, t.pos⟩

/-- Reads a token where a statement may begin. -/
def begin (t : Token) : Except Fault Stage :=
  match t.lexeme with
  | .declare constant => .ok (.name t.pos constant)
  | .conditional branch => .error ⟨.conditional branch.keyword, t.pos⟩
  | _ => operand .statement [] t

/-- Reads a token after the name in a declaration. -/
def initializer (b : Builder) (pos : Pos) (name : String) (namePos : Pos)
    (constant : Bool) (t : Token) :
    Except Fault Builder :=
  match t.lexeme, constant with
  | .semicolon, false =>
      .ok ⟨.declaration pos name namePos constant none :: b.finished, .ready⟩
  | .semicolon, true => .error ⟨.constantWithoutValue name, namePos⟩
  | .operator .assign, _ =>
      .ok ⟨b.finished, .operand (.declaration pos name namePos constant) []⟩
  | other, _ => .error ⟨.expectedValue other.text, t.pos⟩

/-- Reads a token that ends an expression, given the frames that only a parenthesis can
fill and the node before it. -/
def conclude (b : Builder) (goal : Goal) (t : Token) :
    List Frame → Node → Except Fault Builder
  | _ :: rest, inner =>
    match t.lexeme with
    | .closeParen => .ok ⟨b.finished, .operator goal rest inner⟩
    | other => .error ⟨.expectedClosing other.text, t.pos⟩
  | [], whole =>
    match t.lexeme, goal with
    | .semicolon, _ => .ok ⟨goal.finish whole :: b.finished, .ready⟩
    | _, .statement => (begin t).map fun stage => ⟨whole :: b.finished, stage⟩
    | other, .declaration _ _ _ _ => .error ⟨.expectedSemicolon other.text, t.pos⟩

/-- Reads a token after an operand. -/
def follow (b : Builder) (goal : Goal) (frames : List Frame) (node : Node)
    (t : Token) : Except Fault Builder :=
  match t.lexeme with
  | .operator (.binary op) =>
    let (rest, left) := Frame.close op.level frames node
    .ok ⟨b.finished, .operand goal (.binary op t.pos left :: rest)⟩
  | .operator .assign =>
    let (rest, target) := Frame.close 1 frames node
    .ok ⟨b.finished, .operand goal (.assign target :: rest)⟩
  | _ =>
    let (rest, closed) := Frame.close 0 frames node
    b.conclude goal t rest closed

/-- Takes the next token. -/
def step (b : Builder) (t : Token) : Except Fault Builder :=
  match b.stage with
  | .ready => (begin t).map fun stage => ⟨b.finished, stage⟩
  | .name pos constant =>
    match t.lexeme with
    | .identifier name => .ok ⟨b.finished, .value pos name t.pos constant⟩
    | other => .error ⟨.expectedName (keyword constant) other.text, t.pos⟩
  | .value pos name namePos constant => b.initializer pos name namePos constant t
  | .operand goal frames => (operand goal frames t).map fun stage => ⟨b.finished, stage⟩
  | .operator goal frames node => b.follow goal frames node t

/-- Takes the end of the text, at `pos`. -/
def finish (b : Builder) (pos : Pos) : Except Fault (List Node) :=
  match b.stage with
  | .ready => .ok b.finished.reverse
  | .name _ constant => .error ⟨.expectedName (keyword constant) Token.endText, pos⟩
  | .value _ _ _ _ => .error ⟨.expectedValue Token.endText, pos⟩
  | .operand _ _ => .error ⟨.unexpectedToken Token.endText, pos⟩
  | .operator goal frames node =>
    match Frame.close 0 frames node, goal with
    | (_ :: _, _), _ => .error ⟨.expectedClosing Token.endText, pos⟩
    | ([], whole), .statement => .ok (whole :: b.finished).reverse
    | ([], _), .declaration _ _ _ _ => .error ⟨.expectedSemicolon Token.endText, pos⟩

end Builder

/-- The program that the tokens spell. -/
def TokenStream.toProgram (s : TokenStream) : Except Fault Node := do
  let b ← s.tokens.foldlM Builder.step .start
  return .program .unknown (← b.finish s.finish)

/-- Reads a program. A text that does not split into tokens is refused for that reason. -/
def parse (source : String) : Except Fault Node := do
  (← tokenize source).toProgram

end LetLang
