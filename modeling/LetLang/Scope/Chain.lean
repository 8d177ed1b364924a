import LetLang.Fault
import LetLang.Ledger
import LetLang.Value.Basic

/-!
# Scopes and chains of scopes

A scope binds names to values. Each binding is a variable or a constant, and stays what it
was declared as. A program runs in an innermost scope inside any number of outer ones:
names are declared in the innermost scope, and looked up and assigned in the first scope
that binds them, from the inside out.
-/

namespace LetLang

/-- What a name stands for. -/
structure Binding where
  value : Value
  constant : Bool
deriving DecidableEq

/-- The bindings of one scope, in order of declaration. -/
abbrev Scope := Ledger String Binding

namespace Scope

/-- No bindings. -/
def empty : Scope := []

/-- The binding of a name in this scope. -/
def find? (s : Scope) (name : String) : Option Binding :=
  Ledger.get? name s

/-- The names whose values cannot be assigned to, whatever the scope. -/
def reservedNames : List String := ["true", "false", "null"]

/-- The constants that every program can use. -/
def builtins (version : String) : Scope :=
  [("pi", ⟨.number 3.141592653589793, true⟩),
   ("e", ⟨.number 2.718281828459045, true⟩),
   ("version", ⟨.string version, true⟩),
   ("true", ⟨.bool true, true⟩),
   ("false", ⟨.bool false, true⟩),
   ("null", ⟨.null, true⟩)]

end Scope

/-- An innermost scope and the scopes around it, nearest first. -/
structure Chain where
  inner : Scope
  outer : List Scope
deriving DecidableEq

namespace Chain

/-- All scopes, innermost first. -/
def scopes (c : Chain) : List Scope :=
  c.inner :: c.outer

/-- A single scope. -/
def single (s : Scope) : Chain := ⟨s, []⟩

/-- The chain in which a program starts. -/
def initial (version : String) : Chain :=
  single (Scope.builtins version)

/-- How far out the first of the scopes that binds the name is. -/
def depthIn? (name : String) : List Scope → Option Nat
  | [] => none
  | s :: rest => if (s.find? name).isSome then some 0 else (depthIn? name rest).map (· + 1)

/-- The first binding of the name among the scopes. -/
def findIn? (name : String) : List Scope → Option Binding
  | [] => none
  | s :: rest => (s.find? name).or (findIn? name rest)

/-- Gives the name a new value in the first of the scopes that binds it. -/
def setIn (name : String) (value : Value) : List Scope → List Scope
  | [] => []
  | s :: rest =>
    match s.find? name with
    | some b => Ledger.put name { b with value := value } s :: rest
    | none => s :: setIn name value rest

/-- How far out the scope that binds the name is. -/
def resolve (c : Chain) (name : String) : Except Cause Nat :=
  match depthIn? name c.scopes with
  | some depth => .ok depth
  | none => .error (.notDeclared name)

/-- The value of a name. -/
def lookup (c : Chain) (name : String) : Except Cause Value :=
  match findIn? name c.scopes with
  | some b => .ok b.value
  | none => .error (.notDeclared name)

/-- Some scope binds the name. -/
def contains (c : Chain) (name : String) : Bool :=
  (findIn? name c.scopes).isSome

/-- Binds a name in the innermost scope, in which it must be new. -/
def declare (c : Chain) (name : String) (value : Value)
    (constant : Bool) : Except Cause Chain :=
  match c.inner.find? name with
  | some _ => .error (.alreadyDeclared name)
  | none => .ok { c with inner := Ledger.put name ⟨value, constant⟩ c.inner }

/-- Gives a name a new value in the first scope that binds it. -/
def set (c : Chain) (name : String) (value : Value) : Chain :=
  match c.inner.find? name with
  | some b => { c with inner := Ledger.put name { b with value := value } c.inner }
  | none => { c with outer := setIn name value c.outer }

/-- Gives a name a new value where it is bound, unless it is a constant there. -/
def assign (c : Chain) (name : String) (value : Value) : Except Cause Chain :=
  match findIn? name c.scopes with
  | none => .error (.notDeclared name)
  | some b => if b.constant then .error (.constantName name) else .ok (c.set name value)

theorem scopes_set (c : Chain) (name : String) (value : Value) :
    (c.set name value).scopes = setIn name value c.scopes := by
  cases h : c.inner.find? name <;> simp [set, scopes, setIn, h]

end Chain

end LetLang
