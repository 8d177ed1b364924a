import LetLang.Scope.Chain
import LetLang.Tree.Build
import LetLang.Value.Operation

/-!
# Evaluation

What a tree means in a chain of scopes. Operands are evaluated from left to right, both of
them whatever the operator, and a block runs in the scope around it. A failure keeps every
declaration and assignment that was completed before it.
-/

namespace LetLang

/-- A computation that reads and changes a chain of scopes, and leaves one behind also if
it fails. -/
abbrev Evaluation := EStateM Fault Chain

namespace Evaluation

/-- Fails with a cause found at a position. -/
def fail {α : Type} (pos : Pos) (cause : Cause) : Evaluation α :=
  throw ⟨cause, pos⟩

/-- The answer of an operation, whose failure is found at a position. -/
def located (pos : Pos) : Except Cause Value → Evaluation Value
  | .ok v => pure v
  | .error cause => fail pos cause

/-- The value of a name. -/
def lookup (pos : Pos) (name : String) : Evaluation Value := fun c =>
  match c.lookup name with
  | .ok v => .ok v c
  | .error cause => .error ⟨cause, pos⟩ c

/-- Declares a name and gives its value. -/
def declare (pos : Pos) (name : String) (constant : Bool) (v : Value) :
    Evaluation Value := fun c =>
  match c.declare name v constant with
  | .ok c' => .ok v c'
  | .error cause => .error ⟨cause, pos⟩ c

/-- Assigns to a name and gives the value. -/
def assign (pos : Pos) (name : String) (v : Value) : Evaluation Value := fun c =>
  match c.assign name v with
  | .ok c' => .ok v c'
  | .error cause => .error ⟨cause, pos⟩ c

end Evaluation

open Evaluation in
mutual

/-- The value of a tree. -/
def Node.evaluate : Node → Evaluation Value
  | .program _ body => evaluateAll .null body
  | .declaration _ name namePos constant none => declare namePos name constant .null
  | .declaration _ name namePos constant (some value) => do
    let v ← value.evaluate
    declare namePos name constant v
  | .conditional _ branch condition block => do
    let v ← condition.evaluate
    if branch.isTaken v.isTruthy then
      let _ ← evaluateAll .null block
      pure .null
    else
      pure .null
  | .identifier pos name => lookup pos name
  | .number _ x => pure (.number x)
  | .string _ text => pure (.string text)
  | .operation .arithmetic _ operator operatorPos left right => do
    let l ← left.evaluate
    let r ← right.evaluate
    located operatorPos (Value.arithmetic operator l r)
  | .operation .logical _ operator operatorPos left right => do
    let l ← left.evaluate
    let r ← right.evaluate
    located operatorPos (Value.logical operator l r)
  | .operation .untyped _ _ _ _ _ => fail .unknown (.notEvaluable Family.untyped.kindName)
  | .unary pos operator operand => do
    let v ← operand.evaluate
    located pos (Value.unary operator v)
  | .assignment _ (.identifier pos name) value =>
    if name ∈ Scope.reservedNames then
      fail pos (.reservedName name)
    else do
      let v ← value.evaluate
      assign pos name v
  | .assignment _ target _ => fail target.pos (.notAssignable target.kindName)
  | .unknown _ kindName => fail .unknown (.notEvaluable kindName)

/-- Evaluates trees in order and gives the value of the last one, or `last` if there
is none. -/
def evaluateAll (last : Value) : List Node → Evaluation Value
  | [] => pure last
  | n :: ns => do
    let v ← n.evaluate
    evaluateAll v ns

end

/-- Reads a text and evaluates it. A text that cannot be read changes nothing. -/
def evaluateSource (source : String) : Evaluation Value := fun c =>
  match parse source with
  | .ok program => program.evaluate c
  | .error fault => .error fault c

end LetLang
