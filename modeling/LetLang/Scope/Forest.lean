import LetLang.Evaluation

/-!
# Forests of scopes

Scopes that may share outer scopes. They are numbered in order of creation, and each is a
root or lies inside an earlier one. What runs in a scope sees the chain from that scope to
its root, and its changes to any scope of the chain are seen by every other scope inside
that one.
-/

namespace LetLang

/-- A scope and the number of the scope around it. -/
structure Forest.Member where
  scope : Scope
  parent : Option Nat

/-- Scopes by number. -/
structure Forest where
  members : List Forest.Member

namespace Forest

/-- No scopes. -/
def empty : Forest := ⟨[]⟩

/-- Adds a scope, with the next number, inside `parent` or as a root. -/
def add (f : Forest) (parent : Option Nat) (s : Scope) : Forest :=
  ⟨f.members ++ [⟨s, parent⟩]⟩

/-- How many scopes there are. -/
def size (f : Forest) : Nat :=
  f.members.length

/-- The scope with that number. -/
def scope (f : Forest) (i : Nat) : Scope :=
  match f.members[i]? with
  | some m => m.scope
  | none => .empty

/-- The number of the scope around a scope. -/
def parent? (f : Forest) (i : Nat) : Option Nat :=
  f.members[i]?.bind Member.parent

/-- The numbers of the scopes around a scope, nearest first. -/
def ancestors (f : Forest) (i : Nat) : List Nat :=
  match f.parent? i with
  | none => []
  | some p => if p < i then p :: ancestors f p else []
termination_by i

/-- The numbers of a scope and of the scopes around it. -/
def path (f : Forest) (i : Nat) : List Nat :=
  i :: f.ancestors i

/-- The chain that a scope sees. -/
def chain (f : Forest) (i : Nat) : Chain :=
  ⟨f.scope i, (f.ancestors i).map f.scope⟩

/-- Replaces the scope with that number. -/
def set (f : Forest) (i : Nat) (s : Scope) : Forest :=
  ⟨f.members.modify i fun m => { m with scope := s }⟩

/-- Replaces the scopes that a scope sees. -/
def write (f : Forest) (i : Nat) (c : Chain) : Forest :=
  ((f.path i).zip c.scopes).foldl (fun g entry => g.set entry.1 entry.2) f

/-- Runs a computation in a scope. -/
def within {α : Type} (i : Nat) (act : Evaluation α) : EStateM Fault Forest α := fun f =>
  match act (f.chain i) with
  | .ok a c => .ok a (f.write i c)
  | .error fault c => .error fault (f.write i c)

/-- The number of the scope that binds a name, as a scope sees it. -/
def owner (f : Forest) (i : Nat) (name : String) : Except Cause Nat :=
  match (f.chain i).resolve name with
  | .error cause => .error cause
  | .ok depth => .ok ((f.path i).getD depth i)

end Forest
end LetLang
