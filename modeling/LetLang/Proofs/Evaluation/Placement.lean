import LetLang.Evaluation
import LetLang.Proofs.Tree.Placement

/-!
# Evaluating a tree at another place

A well-formed tree gives the same values and the same effects wherever it stands, and fails
for the same reasons. Only the places of its faults move with it: every fault of such a
tree is found at one of its own positions.
-/

namespace LetLang
namespace Evaluation

variable (f : Pos → Pos)

/-- The computation with its faults at other places. -/
def relocate {α : Type} (m : Evaluation α) : Evaluation α := fun c =>
  match m c with
  | .ok a c' => .ok a c'
  | .error fault c' => .error ⟨fault.cause, f fault.pos⟩ c'

@[simp] theorem relocate_pure
    {α : Type} (a : α) :
    relocate f (pure a : Evaluation α) = pure a := by
  rfl

@[simp] theorem relocate_bind
    {α β : Type} (m : Evaluation α) (g : α → Evaluation β) :
    relocate f (m >>= g) = relocate f m >>= fun a => relocate f (g a) := by
  funext c
  simp only [relocate, bind, EStateM.bind]
  cases m c with
  | ok a c' => rfl
  | error fault c' => rfl

@[simp] theorem relocate_fail
    {α : Type} (pos : Pos) (cause : Cause) :
    relocate f (fail pos cause : Evaluation α) = fail (f pos) cause := by
  rfl

@[simp] theorem relocate_located
    (pos : Pos) (answer : Except Cause Value) :
    relocate f (located pos answer) = located (f pos) answer := by
  cases answer <;> rfl

@[simp] theorem relocate_lookup
    (pos : Pos) (name : String) :
    relocate f (lookup pos name) = lookup (f pos) name := by
  funext c
  unfold relocate lookup
  cases c.lookup name <;> rfl

@[simp] theorem relocate_declare
    (pos : Pos) (name : String) (constant : Bool) (v : Value) :
    relocate f (declare pos name constant v) = declare (f pos) name constant v := by
  funext c
  unfold relocate declare
  cases c.declare name v constant <;> rfl

@[simp] theorem relocate_assign
    (pos : Pos) (name : String) (v : Value) :
    relocate f (assign pos name v) = assign (f pos) name v := by
  funext c
  unfold relocate assign
  cases c.assign name v <;> rfl

end Evaluation

namespace Node

open Evaluation

theorem identifier_or_not
    (n : Node) :
    (∃ p name, n = .identifier p name) ∨ ∀ p name, n ≠ .identifier p name := by
  cases n with
  | identifier p name => exact Or.inl ⟨p, name, rfl⟩
  | _ => exact Or.inr (fun p name heq => by cases heq)

/-- What is no identifier cannot be assigned to. -/
theorem evaluate_assignment_of_not_identifier
    (pos : Pos) {target : Node} (value : Node)
    (h : ∀ p name, target ≠ .identifier p name) :
    (Node.assignment pos target value).evaluate =
      fail target.pos (.notAssignable target.kindName) := by
  cases target with
  | identifier p name => exact absurd rfl (h p name)
  | _ => rw [evaluate]; exact fun _ _ heq => by cases heq

theorem relocate_ne_identifier
    (f : Pos → Pos) {n : Node}
    (h : ∀ p name, n ≠ .identifier p name) :
    ∀ p name, n.relocate f ≠ .identifier p name := by
  intro p name heq
  cases n with
  | identifier q other => exact h q other rfl
  | declaration q other namePos constant value =>
      cases value <;> simp [Node.relocate] at heq
  | _ => simp [Node.relocate] at heq

/-- An expression at another place has the same value and its faults at that place. -/
theorem evaluate_relocate
    (f : Pos → Pos) :
    (n : Node) → n.IsExpression → (n.relocate f).evaluate = n.evaluate.relocate f
  | .identifier pos name, _ => by
      simp [Node.relocate, evaluate]
  | .number pos x, _ => by
      simp [Node.relocate, evaluate]
  | .string pos text, _ => by
      simp [Node.relocate, evaluate]
  | .operation family pos symbol symbolPos left right, h => by
      obtain ⟨⟨op, rfl, rfl⟩, hleft, hright⟩ := h
      have hl := evaluate_relocate f left hleft
      have hr := evaluate_relocate f right hright
      cases op with
      | arith op => simp [Node.relocate, BinaryOp.family, evaluate, hl, hr]
      | logic op => simp [Node.relocate, BinaryOp.family, evaluate, hl, hr]
  | .unary pos symbol operand, h => by
      have hoperand := evaluate_relocate f operand h.2
      simp [Node.relocate, evaluate, hoperand]
  | .assignment pos target value, h => by
      have hvalue := evaluate_relocate f value h.2
      rcases target.identifier_or_not with ⟨p, name, rfl⟩ | htarget
      · simp only [Node.relocate, evaluate, hvalue]
        split
        · rw [relocate_fail]
        · simp
      · have hmoved := relocate_ne_identifier f htarget
        rw [Node.relocate, evaluate_assignment_of_not_identifier _ _ hmoved,
          evaluate_assignment_of_not_identifier _ _ htarget, relocate_fail, pos_relocate,
          kindName_relocate]

/-- A statement at another place has the same value and its faults at that place. -/
theorem evaluate_relocate_of_isStatement
    (f : Pos → Pos) {n : Node}
    (h : n.IsStatement) :
    (n.relocate f).evaluate = n.evaluate.relocate f := by
  cases n with
  | declaration pos name namePos constant value =>
      cases value with
      | none => simp [Node.relocate, evaluate]
      | some value =>
          have hvalue := evaluate_relocate f value h.2
          simp [Node.relocate, evaluate, hvalue]
  | _ => exact evaluate_relocate f _ h

end Node

open Evaluation

/-- Statements at another place have the same value and their faults at that place. -/
theorem evaluateAll_relocate
    (f : Pos → Pos) (last : Value) {ns : List Node}
    (h : ∀ n ∈ ns, n.IsStatement) :
    evaluateAll last (ns.map (Node.relocate f)) = (evaluateAll last ns).relocate f := by
  induction ns generalizing last with
  | nil => simp [evaluateAll]
  | cons n ns ih =>
      have hn := Node.evaluate_relocate_of_isStatement f (h n List.mem_cons_self)
      have hns := fun v => ih v (fun m hm => h m (List.mem_cons_of_mem n hm))
      simp [evaluateAll, hn, hns]

/-- Statements are evaluated one part after the other. -/
theorem evaluateAll_append
    (last : Value) (ns ms : List Node) :
    evaluateAll last (ns ++ ms) = evaluateAll last ns >>= fun v => evaluateAll v ms := by
  induction ns generalizing last with
  | nil => simp [evaluateAll]
  | cons n ns ih => simp [evaluateAll, ih]

theorem evaluateAll_of_ne_nil
    {ns : List Node}
    (h : ns ≠ [])
    (last last' : Value) :
    evaluateAll last ns = evaluateAll last' ns := by
  cases ns with
  | nil => exact absurd rfl h
  | cons n ns => rw [evaluateAll, evaluateAll]

end LetLang
