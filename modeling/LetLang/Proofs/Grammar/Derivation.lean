import LetLang.Tree.Build
import Mathlib.Data.List.Chain

/-!
# Derivations in the grammar of programs

The grammar in full, loosest level first. A program is a list of statements.

```
<statement>   ::= <declaration> | <expression> [";"]
<declaration> ::= "let" IDENTIFIER ";" | ("let" | "const") IDENTIFIER "=" <expression> ";"

<expression>  ::= <or> ["=" <expression>]                            level 0
<or>          ::= <and> ("||" <and>)*                                level 1
<and>         ::= <equality> ("&&" <equality>)*                      level 2
<equality>    ::= <comparison> (("==" | "!=") <comparison>)*         level 3
<comparison>  ::= <additive> ((">" | "<" | ">=" | "<=") <additive>)* level 4
<additive>    ::= <mult> (("+" | "-") <mult>)*                       level 5
<mult>        ::= <unary> (("*" | "/" | "%") <unary>)*               level 6
<unary>       ::= ("-" | "!") <unary> | <primary>                    level 7
<primary>     ::= IDENTIFIER | NUMBER | STRING | "(" <expression> ")"  level 8
```

A derivation is an explicit tree with one constructor for each production. Its terminals
are tokens, so that it also tells where every terminal stands. `Derivation.yield` is the
sequence of these tokens and `Derivation.meaning` the syntax tree that the derivation
stands for. A terminal is matched by its whole lexeme: the signs `=` and `==` are different
operators, and the text of a string is never an operator.
-/

namespace LetLang
namespace Grammar

/-- The nonterminals of expressions: the nine levels, and for each level of binary
operators the repeated part. -/
inductive Nonterminal
  | level (l : Nat)
  | rest (l : Nat)
deriving DecidableEq, Repr

/-- The operators that stand before an operand. -/
inductive Sign
  | minus
  | not
deriving DecidableEq, Repr

/-- The operator token of a sign. -/
def Sign.operator : Sign → Operator
  | minus => .binary (.arith .sub)
  | not => .not

/-- Derivation trees of expressions. -/
inductive Derivation : Nonterminal → Type
  | plain
      (e : Derivation (.level 1)) :
      Derivation (.level 0)
  | assignment
      (target : Derivation (.level 1))
      (pos : Pos)
      (value : Derivation (.level 0)) :
      Derivation (.level 0)
  | chain
      {l : Nat}
      (loosest : 1 ≤ l)
      (tightest : l ≤ 6)
      (first : Derivation (.level (l + 1)))
      (rest : Derivation (.rest l)) :
      Derivation (.level l)
  | stop
      {l : Nat} :
      Derivation (.rest l)
  | link
      {l : Nat}
      (op : BinaryOp)
      (hop : op.level = l)
      (pos : Pos)
      (operand : Derivation (.level (l + 1)))
      (rest : Derivation (.rest l)) :
      Derivation (.rest l)
  | sign
      (s : Sign)
      (pos : Pos)
      (operand : Derivation (.level 7)) :
      Derivation (.level 7)
  | primary
      (e : Derivation (.level 8)) :
      Derivation (.level 7)
  | identifier
      (pos : Pos)
      (name : String) :
      Derivation (.level 8)
  | number
      (pos : Pos)
      (digits : String) :
      Derivation (.level 8)
  | string
      (pos : Pos)
      (text : String) :
      Derivation (.level 8)
  | paren
      (opening : Pos)
      (inner : Derivation (.level 0))
      (closing : Pos) :
      Derivation (.level 8)

/-- What a derivation stands for: a syntax tree, or for a repeated part what it makes of
the tree to its left. -/
def Nonterminal.Meaning : Nonterminal → Type
  | level _ => Node
  | rest _ => Node → Node

namespace Derivation

/-- The tokens of a derivation, in order. -/
@[simp] def yield : {N : Nonterminal} → Derivation N → List Token
  | _, plain e => yield e
  | _, assignment target pos value =>
      yield target ++ ⟨.operator .assign, pos⟩ :: yield value
  | _, chain _ _ first rest => yield first ++ yield rest
  | _, stop => []
  | _, link op _ pos operand rest =>
      ⟨.operator (.binary op), pos⟩ :: (yield operand ++ yield rest)
  | _, sign s pos operand => ⟨.operator s.operator, pos⟩ :: yield operand
  | _, primary e => yield e
  | _, identifier pos name => [⟨.identifier name, pos⟩]
  | _, number pos digits => [⟨.number digits, pos⟩]
  | _, string pos text => [⟨.string text, pos⟩]
  | _, paren opening inner closing =>
      ⟨.openParen, opening⟩ :: (yield inner ++ [⟨.closeParen, closing⟩])

/-- What a derivation stands for. Parentheses leave no trace, a chain grows to the left,
and an operation stands where its left operand does. -/
def meaning : {N : Nonterminal} → Derivation N → N.Meaning
  | _, plain e => (meaning e : Node)
  | _, assignment target _ value =>
      let t : Node := meaning target
      Node.assignment t.pos t (meaning value)
  | _, chain _ _ first rest => (meaning rest : Node → Node) (meaning first)
  | _, stop => fun left => left
  | _, link op _ pos operand rest => fun (left : Node) =>
      (meaning rest : Node → Node)
        (Node.operation op.family left.pos op.symbol pos left (meaning operand))
  | _, sign s pos operand => Node.unary pos s.operator.symbol (meaning operand)
  | _, primary e => (meaning e : Node)
  | _, identifier pos name => Node.identifier pos name
  | _, number pos digits => Node.number pos (Decimal.read digits.toList)
  | _, string pos text => Node.string pos text
  | _, paren _ inner _ => (meaning inner : Node)

/-- The syntax tree of an expression. -/
def node {l : Nat} (d : Derivation (.level l)) : Node :=
  d.meaning

/-- The syntax tree of an operand together with the repeated part to its right. -/
def extend {l : Nat} (d : Derivation (.rest l)) : Node → Node :=
  d.meaning

@[simp] theorem node_assignment
    (target : Derivation (.level 1)) (pos : Pos) (value : Derivation (.level 0)) :
    (assignment target pos value).node = .assignment target.node.pos
      target.node value.node := by
  rfl

@[simp] theorem node_chain
    {l : Nat} (loosest : 1 ≤ l) (tightest : l ≤ 6)
    (first : Derivation (.level (l + 1))) (rest : Derivation (.rest l)) :
    (chain loosest tightest first rest).node = rest.extend first.node := by
  rfl

@[simp] theorem extend_stop
    {l : Nat} (left : Node) :
    (stop : Derivation (.rest l)).extend left = left := by
  rfl

@[simp] theorem extend_link
    {l : Nat} (op : BinaryOp) (hop : op.level = l) (pos : Pos)
    (operand : Derivation (.level (l + 1))) (rest : Derivation (.rest l)) (left : Node) :
    (link op hop pos operand rest).extend left =
      rest.extend (.operation op.family left.pos op.symbol pos left operand.node) := by
  rfl

@[simp] theorem node_sign
    (s : Sign) (pos : Pos) (operand : Derivation (.level 7)) :
    (sign s pos operand).node = .unary pos s.operator.symbol operand.node := by
  rfl

end Derivation

/-- Derivations of statements. A variable may be declared without a value, a constant
may not. -/
inductive Statement
  | unset
      (keyword : Pos)
      (name : String)
      (namePos semicolon : Pos)
  | set
      (constant : Bool)
      (keyword : Pos)
      (name : String)
      (namePos equals : Pos)
      (value : Derivation (.level 0))
      (semicolon : Pos)
  | expression
      (e : Derivation (.level 0))
      (semicolon : Option Pos)

namespace Statement

/-- The tokens of a statement, in order. -/
def yield : Statement → List Token
  | unset keyword name namePos semicolon =>
      [⟨.declare false, keyword⟩, ⟨.identifier name, namePos⟩, ⟨.semicolon, semicolon⟩]
  | set constant keyword name namePos equals value semicolon =>
      ⟨.declare constant, keyword⟩ :: ⟨.identifier name, namePos⟩ ::
        ⟨.operator .assign, equals⟩ :: (value.yield ++ [⟨.semicolon, semicolon⟩])
  | expression e none => e.yield
  | expression e (some semicolon) => e.yield ++ [⟨.semicolon, semicolon⟩]

/-- The syntax tree of a statement. -/
def node : Statement → Node
  | unset keyword name namePos _ => .declaration keyword name namePos false none
  | set constant keyword name namePos _ value _ =>
      .declaration keyword name namePos constant (some value.node)
  | expression e _ => e.node

/-- The statement is an expression without a semicolon. -/
def isBare : Statement → Bool
  | expression _ none => true
  | _ => false

end Statement

/-- The token is a minus sign. -/
def isMinus (t : Token) : Bool :=
  t.lexeme == .operator Sign.minus.operator

/-- A minus sign does not begin `ts`. -/
def NoMinus (ts : List Token) : Prop :=
  ∀ t ∈ ts.head?, isMinus t = false

/-- Derivations of programs. -/
abbrev Program := List Statement

namespace Program

/-- The tokens of a program, in order. -/
def yield (p : Program) : List Token :=
  p.flatMap Statement.yield

/-- The syntax trees of the statements. -/
def nodes (p : Program) : List Node :=
  p.map Statement.node

/-- No expression without a semicolon is directly followed by a statement that begins with
a minus sign. -/
def Settled (p : Program) : Prop :=
  p.IsChain fun s t => s.isBare = true → NoMinus t.yield

end Program

end Grammar
end LetLang
