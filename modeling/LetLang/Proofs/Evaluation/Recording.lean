import LetLang.Proofs.Evaluation.Placement

/-!
# Recorded evaluation

Evaluation is written once more with a journal, in which every declaration and every
assignment is put down when it has been made, with its value. By
`Recorded.faithful_evaluate` the journal changes nothing: values, faults and scopes are
those of `Node.evaluate`. And it is complete: making its changes in order leads from the
chain at the beginning to the chain at the end, also where evaluation fails.
-/

namespace LetLang

/-- The state that a computation leaves behind, whether it succeeds or fails. -/
def leaves {ε σ α : Type} : EStateM.Result ε σ α → σ
  | .ok _ s => s
  | .error _ s => s

/-- A change that is made to a chain of scopes. -/
inductive Change
  | declared (name : String) (value : Value) (constant : Bool)
  | assigned (name : String) (value : Value)
deriving DecidableEq

namespace Chain

/-- Makes a change, if it can be made. -/
def make (c : Chain) : Change → Except Cause Chain
  | .declared name value constant => c.declare name value constant
  | .assigned name value => c.assign name value

/-- All the changes can be made in order, and lead from one chain to another. -/
inductive Replays : Chain → List Change → Chain → Prop
  | nil (c : Chain) :
      Replays c [] c
  | cons
      {c c₁ c₂ : Chain} {change : Change} {changes : List Change} :
      c.make change = .ok c₁ →
      Replays c₁ changes c₂ →
      Replays c (change :: changes) c₂

theorem Replays.single
    {c c' : Chain} {change : Change}
    (h : c.make change = .ok c') :
    Replays c [change] c' := by
  exact .cons h (.nil c')

theorem Replays.append
    {c c₁ c₂ : Chain} {first second : List Change}
    (hfirst : Replays c first c₁)
    (hsecond : Replays c₁ second c₂) :
    Replays c (first ++ second) c₂ := by
  induction hfirst with
  | nil c => exact hsecond
  | cons hmake _ ih => exact .cons hmake (ih hsecond)

end Chain

/-- A chain of scopes, and the changes that have been made to it, oldest first. -/
structure Journal where
  chain : Chain
  changes : List Change

/-- A computation that reads and changes a chain of scopes and puts the changes down. -/
abbrev Recorded := EStateM Fault Journal

namespace Recorded

/-- Fails with a cause found at a position. -/
def fail {α : Type} (pos : Pos) (cause : Cause) : Recorded α :=
  throw ⟨cause, pos⟩

/-- The answer of an operation, whose failure is found at a position. -/
def located (pos : Pos) : Except Cause Value → Recorded Value
  | .ok v => pure v
  | .error cause => fail pos cause

/-- The value of a name. -/
def lookup (pos : Pos) (name : String) : Recorded Value := fun j =>
  match j.chain.lookup name with
  | .ok v => .ok v j
  | .error cause => .error ⟨cause, pos⟩ j

/-- Makes a change, puts it down and gives a value. -/
def make (pos : Pos) (change : Change) (v : Value) : Recorded Value := fun j =>
  match j.chain.make change with
  | .ok c => .ok v ⟨c, j.changes ++ [change]⟩
  | .error cause => .error ⟨cause, pos⟩ j

mutual

/-- The value of a tree, with the changes put down. -/
def evaluate : Node → Recorded Value
  | .program _ body => evaluateAll .null body
  | .declaration _ name namePos constant none =>
      make namePos (.declared name .null constant) .null
  | .declaration _ name namePos constant (some value) => do
    let v ← evaluate value
    make namePos (.declared name v constant) v
  | .conditional _ branch condition block => do
    let v ← evaluate condition
    if branch.isTaken v.isTruthy then
      let _ ← evaluateAll .null block
      pure .null
    else
      pure .null
  | .identifier pos name => lookup pos name
  | .number _ x => pure (.number x)
  | .string _ text => pure (.string text)
  | .operation .arithmetic _ operator operatorPos left right => do
    let l ← evaluate left
    let r ← evaluate right
    located operatorPos (Value.arithmetic operator l r)
  | .operation .logical _ operator operatorPos left right => do
    let l ← evaluate left
    let r ← evaluate right
    located operatorPos (Value.logical operator l r)
  | .operation .untyped _ _ _ _ _ => fail .unknown (.notEvaluable Family.untyped.kindName)
  | .unary pos operator operand => do
    let v ← evaluate operand
    located pos (Value.unary operator v)
  | .assignment _ (.identifier pos name) value =>
    if name ∈ Scope.reservedNames then
      fail pos (.reservedName name)
    else do
      let v ← evaluate value
      make pos (.assigned name v) v
  | .assignment _ target _ => fail target.pos (.notAssignable target.kindName)
  | .unknown _ kindName => fail .unknown (.notEvaluable kindName)

/-- Evaluates trees in order and gives the value of the last one, or `last` if there
is none. -/
def evaluateAll (last : Value) : List Node → Recorded Value
  | [] => pure last
  | n :: ns => do
    let v ← evaluate n
    evaluateAll v ns

end

/-- The changes that a computation makes to a chain. -/
def changes {α : Type} (m : Recorded α) (c : Chain) : List Change :=
  (leaves (m ⟨c, []⟩)).changes

/-- What comes of a computation, with a journal in place of the chain. -/
def noted {α : Type} (changes : List Change) :
    EStateM.Result Fault Chain α → EStateM.Result Fault Journal α
  | .ok a c => .ok a ⟨c, changes⟩
  | .error fault c => .error fault ⟨c, changes⟩

/-- The recorded computation ends as the other one does, and puts down what leads there. -/
def Faithful {α : Type} (m : Recorded α) (n : Evaluation α) : Prop :=
  ∀ c earlier, ∃ made, c.Replays made (leaves (n c)) ∧
    m ⟨c, earlier⟩ = noted (earlier ++ made) (n c)

theorem Faithful.replays_changes
    {α : Type} {m : Recorded α} {n : Evaluation α}
    (h : Faithful m n)
    (c : Chain) :
    c.Replays (m.changes c) (leaves (n c)) := by
  obtain ⟨made, hreplays, hrecorded⟩ := h c []
  have hchanges : m.changes c = made := by
    rw [changes, hrecorded]
    cases n c <;> rfl
  rw [hchanges]
  exact hreplays

/-- A computation that succeeds or fails at once without a change. -/
theorem faithful_of_idle
    {α : Type} {m : Recorded α} {n : Evaluation α}
    (hidle : ∀ c, leaves (n c) = c)
    (h : ∀ c earlier, m ⟨c, earlier⟩ = noted earlier (n c)) :
    Faithful m n := by
  intro c earlier
  refine ⟨[], ?_, ?_⟩
  · rw [hidle]
    exact .nil c
  · rw [List.append_nil]
    exact h c earlier

theorem faithful_pure
    {α : Type} (a : α) :
    Faithful (pure a) (pure a) := by
  exact faithful_of_idle (fun _ => rfl) (fun _ _ => rfl)

theorem Faithful.bind
    {α β : Type} {m : Recorded α} {n : Evaluation α} {g : α →
      Recorded β} {k : α → Evaluation β}
    (hm : Faithful m n)
    (hg : ∀ a, Faithful (g a) (k a)) :
    Faithful (m >>= g) (n >>= k) := by
  intro c earlier
  obtain ⟨made, hreplays, hrecorded⟩ := hm c earlier
  simp only [Bind.bind, EStateM.bind, hrecorded]
  cases hrun : n c with
  | error fault c₁ =>
      rw [hrun] at hreplays
      exact ⟨made, hreplays, rfl⟩
  | ok a c₁ =>
      rw [hrun] at hreplays
      obtain ⟨more, hmore, hrest⟩ := hg a c₁ (earlier ++ made)
      rw [List.append_assoc] at hrest
      exact ⟨made ++ more, hreplays.append hmore, hrest⟩

theorem faithful_fail
    {α : Type} (pos : Pos) (cause : Cause) :
    Faithful (fail pos cause : Recorded α) (Evaluation.fail pos cause) := by
  exact faithful_of_idle (fun _ => rfl) (fun _ _ => rfl)

theorem faithful_located
    (pos : Pos) (answer : Except Cause Value) :
    Faithful (located pos answer) (Evaluation.located pos answer) := by
  cases answer with
  | ok v => exact faithful_pure v
  | error cause => exact faithful_fail pos cause

theorem faithful_lookup
    (pos : Pos) (name : String) :
    Faithful (lookup pos name) (Evaluation.lookup pos name) := by
  apply faithful_of_idle
  · intro c
    simp only [Evaluation.lookup]
    cases c.lookup name <;> rfl
  · intro c earlier
    simp only [Evaluation.lookup, lookup]
    cases c.lookup name <;> rfl

theorem faithful_declare
    (pos : Pos) (name : String) (constant : Bool) (v : Value) :
    Faithful (make pos (.declared name v constant) v)
      (Evaluation.declare pos name constant v) := by
  intro c earlier
  simp only [Evaluation.declare, make, Chain.make]
  cases hdeclare : c.declare name v constant with
  | ok c' => exact ⟨[.declared name v constant], .single hdeclare, rfl⟩
  | error cause => exact ⟨[], .nil c, by rw [List.append_nil]; rfl⟩

theorem faithful_assign
    (pos : Pos) (name : String) (v : Value) :
    Faithful (make pos (.assigned name v) v) (Evaluation.assign pos name v) := by
  intro c earlier
  simp only [Evaluation.assign, make, Chain.make]
  cases hassign : c.assign name v with
  | ok c' => exact ⟨[.assigned name v], .single hassign, rfl⟩
  | error cause => exact ⟨[], .nil c, by rw [List.append_nil]; rfl⟩

theorem evaluate_assignment_of_not_identifier
    (pos : Pos) {target : Node} (value : Node)
    (h : ∀ p name, target ≠ .identifier p name) :
    evaluate (.assignment pos target value) =
      fail target.pos (.notAssignable target.kindName) := by
  cases target with
  | identifier p name => exact absurd rfl (h p name)
  | _ => rw [evaluate]; exact fun _ _ heq => by cases heq

mutual

/-- Putting the changes of an evaluation down does not disturb it. -/
theorem faithful_evaluate :
    (n : Node) → Faithful (evaluate n) n.evaluate
  | .program pos body => by
      have hbody := faithful_evaluateAll .null body
      rw [evaluate, Node.evaluate]
      exact hbody
  | .declaration pos name namePos constant none => by
      rw [evaluate, Node.evaluate]
      exact faithful_declare namePos name constant .null
  | .declaration pos name namePos constant (some value) => by
      have hvalue := faithful_evaluate value
      rw [evaluate, Node.evaluate]
      exact hvalue.bind fun v => faithful_declare namePos name constant v
  | .conditional pos branch condition block => by
      have hcondition := faithful_evaluate condition
      have hblock := faithful_evaluateAll .null block
      rw [evaluate, Node.evaluate]
      refine hcondition.bind fun v => ?_
      split
      · exact hblock.bind fun _ => faithful_pure _
      · exact faithful_pure _
  | .identifier pos name => by
      rw [evaluate, Node.evaluate]
      exact faithful_lookup pos name
  | .number pos x => by
      rw [evaluate, Node.evaluate]
      exact faithful_pure _
  | .string pos text => by
      rw [evaluate, Node.evaluate]
      exact faithful_pure _
  | .operation .arithmetic pos operator operatorPos left right => by
      have hleft := faithful_evaluate left
      have hright := faithful_evaluate right
      rw [evaluate, Node.evaluate]
      exact hleft.bind fun l => hright.bind fun r => faithful_located operatorPos _
  | .operation .logical pos operator operatorPos left right => by
      have hleft := faithful_evaluate left
      have hright := faithful_evaluate right
      rw [evaluate, Node.evaluate]
      exact hleft.bind fun l => hright.bind fun r => faithful_located operatorPos _
  | .operation .untyped pos operator operatorPos left right => by
      rw [evaluate, Node.evaluate]
      exact faithful_fail _ _
  | .unary pos operator operand => by
      have hoperand := faithful_evaluate operand
      rw [evaluate, Node.evaluate]
      exact hoperand.bind fun v => faithful_located pos _
  | .assignment pos target value => by
      have hvalue := faithful_evaluate value
      rcases target.identifier_or_not with ⟨p, name, rfl⟩ | htarget
      · rw [evaluate, Node.evaluate]
        split
        · exact faithful_fail p _
        · exact hvalue.bind fun v => faithful_assign p name v
      · rw [evaluate_assignment_of_not_identifier pos value htarget,
          Node.evaluate_assignment_of_not_identifier pos value htarget]
        exact faithful_fail _ _
  | .unknown pos kindName => by
      rw [evaluate, Node.evaluate]
      exact faithful_fail _ _

theorem faithful_evaluateAll (last : Value) :
    (ns : List Node) → Faithful (evaluateAll last ns) (LetLang.evaluateAll last ns)
  | [] => by
      rw [evaluateAll, LetLang.evaluateAll]
      exact faithful_pure last
  | n :: ns => by
      have hn := faithful_evaluate n
      have hns := fun v => faithful_evaluateAll v ns
      rw [evaluateAll, LetLang.evaluateAll]
      exact hn.bind hns

end

end Recorded
end LetLang
