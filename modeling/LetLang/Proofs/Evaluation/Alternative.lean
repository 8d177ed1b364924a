import LetLang.Proofs.Evaluation.Footprint

/-!
# Two blocks on one condition

A block that is taken when a condition holds is followed by one that is taken when the same
condition does not hold. The condition is evaluated twice, the second time after the first
block may have changed the scopes. If it changes nothing itself, and the first block
changes none of its names, it has the same value both times: exactly one of the blocks
runs.
-/

namespace LetLang

namespace Node

/-- The node declares a name, assigns to one or makes a block depend on a condition. -/
def isActive : Node → Bool
  | declaration .. | assignment .. | conditional .. => true
  | _ => false

/-- There is no declaration, no assignment and no conditional block anywhere in
the tree. -/
def IsPassive (n : Node) : Prop :=
  ∀ k ∈ n.subtrees, k.isActive = false

theorem IsPassive.changedNames_eq
    {n : Node}
    (h : n.IsPassive) :
    n.changedNames = [] := by
  have hnone : ∀ f : Node → Option String, (∀ k, k.isActive = false → f k = none) →
      n.subtrees.filterMap f = [] := by
    intro f hf
    exact List.filterMap_eq_nil_iff.mpr fun k hk => hf k (h k hk)
  have hdeclared : n.declaredNames = [] := by
    refine hnone declaredName? fun k hk => ?_
    cases k with
    | declaration => cases hk
    | _ => rfl
  have hassigned : n.assignedNames = [] := by
    refine hnone assignedName? fun k hk => ?_
    cases k with
    | assignment => cases hk
    | _ => rfl
  rw [changedNames, hdeclared, hassigned, List.append_nil]

end Node

open Evaluation

namespace Node

/-- A passive tree leaves the chain as it is, whether it has a value or fails. -/
theorem IsPassive.leaves_evaluate
    {n : Node}
    (h : n.IsPassive)
    (c : Chain) :
    leaves (n.evaluate c) = c := by
  have hnil := List.append_eq_nil_iff.mp h.changedNames_eq
  refine maintains_evaluate (P := fun d => d = c) ?_ ?_ c rfl
  · intro name hname
    rw [hnil.1] at hname
    cases hname
  · intro name hname
    rw [hnil.2] at hname
    cases hname

/-- A passive tree has the same value in every chain that agrees on its names. -/
theorem IsPassive.evaluate_of_agreeOn
    {n : Node} {c d : Chain} {v : Value}
    (h : n.IsPassive)
    (hvalue : n.evaluate c = .ok v c)
    (hagree : c.AgreeOn (· ∈ n.names) d) :
    n.evaluate d = .ok v d := by
  have hends := n.respects_agreeOn (fun _ hname => hname) c d hagree
  have hleaves := h.leaves_evaluate d
  rw [hvalue] at hends
  generalize n.evaluate d = r at hends hleaves ⊢
  cases hends with
  | ok a hnext => exact congrArg (EStateM.Result.ok v) hleaves

/-- Once its condition has a value, a conditional block runs as a whole or not at all. -/
theorem evaluate_conditional_of_value
    {condition : Node} {c c' : Chain} {v : Value}
    (hvalue : condition.evaluate c = .ok v c')
    (pos : Pos) (branch : Branch) (block : List Node) :
    (conditional pos branch condition block).evaluate c =
      if branch.isTaken v.isTruthy then (evaluateAll .null block >>= fun _ => pure .null)
        c' else .ok .null c' := by
  rw [evaluate]
  simp only [bind, EStateM.bind, hvalue]
  cases branch.isTaken v.isTruthy with
  | true => rfl
  | false => rfl

end Node

/-- Statements leave the bindings of names that none of them changes as they are, in
every scope. -/
theorem agreeOn_evaluateAll
    {P : String → Prop} {ns : List Node}
    (hP : ∀ n ∈ ns, ∀ name ∈ n.changedNames, ¬ P name)
    (last : Value) (c : Chain) :
    c.AgreeOn P (leaves (evaluateAll last ns c)) := by
  induction ns generalizing last c with
  | nil =>
      rw [evaluateAll]
      exact .refl P c
  | cons n ns ih =>
      obtain ⟨hn, hns⟩ := List.forall_mem_cons.mp hP
      have hfirst := n.agreeOn_evaluate hn c
      rw [evaluateAll]
      simp only [bind, EStateM.bind]
      cases hrun : n.evaluate c with
      | ok v c₁ =>
          rw [hrun] at hfirst
          exact hfirst.trans (ih hns v c₁)
      | error fault c₁ =>
          rw [hrun] at hfirst
          exact hfirst

/--
A block and another one on the opposite condition are alternatives, if the condition is
passive and has a value, and the first block changes none of its names.
-/
theorem evaluate_alternatives
    {condition : Node} {block : List Node} {c c' : Chain} {v : Value}
    (hpassive : condition.IsPassive)
    (hvalue : condition.evaluate c = .ok v c')
    (hnames : ∀ n ∈ block, ∀ name ∈ n.changedNames, name ∉ condition.names)
    (other : List Node) (p q : Pos) :
    ((Node.conditional p .whenTrue condition block).evaluate >>= fun _ =>
        (Node.conditional q .otherwise condition other).evaluate) c =
      (evaluateAll .null (if v.isTruthy then block else other) >>= fun _ =>
        pure .null) c := by
  have hsame : c' = c := by
    have hleaves := hpassive.leaves_evaluate c
    rwa [hvalue] at hleaves
  rw [hsame] at hvalue
  simp only [bind, EStateM.bind]
  rw [Node.evaluate_conditional_of_value hvalue]
  cases htruthy : v.isTruthy with
  | true =>
      have hframe := agreeOn_evaluateAll hnames .null c
      simp only [Branch.isTaken, if_true, bind, EStateM.bind]
      cases hblock : evaluateAll .null block c with
      | error fault d => rfl
      | ok u d =>
          -- the condition still has its value, so the second block does not run
          rw [hblock] at hframe
          have hagain : condition.evaluate d = .ok v d :=
            hpassive.evaluate_of_agreeOn hvalue hframe
          dsimp only [pure, EStateM.pure]
          rw [Node.evaluate_conditional_of_value hagain, htruthy]
          rfl
  | false =>
      simp only [Branch.isTaken, Bool.false_eq_true, if_false]
      rw [Node.evaluate_conditional_of_value hvalue, htruthy]
      rfl

/-- What is not a number does not count as true: only the second block runs, until its
second statement fails. -/
theorem evaluate_alternatives_not_a_number :
    ∃ (condition : Node) (block other : List Node) (c c' : Chain),
      condition.IsPassive ∧ condition.evaluate c = .ok (.number Binary64.notANumber) c ∧
      (∀ n ∈ block, ∀ name ∈ n.changedNames, name ∉ condition.names) ∧
      ((Node.conditional .start .whenTrue condition block).evaluate >>= fun _ =>
          (Node.conditional .start .otherwise condition other).evaluate) c =
        .error ⟨.notDeclared "z", .start⟩ c' ∧
      c'.lookup "y" = .ok (.string "b") := by
  let condition : Node := .identifier .start "x"
  let assign (text : String) : Node :=
    .assignment .start (.identifier .start "y") (.string .start text)
  let block : List Node := [assign "a"]
  let other : List Node := [assign "b", .identifier .start "z", assign "c"]
  let c : Chain :=
    ⟨[("x", ⟨.number Binary64.notANumber, true⟩)], [[("y", ⟨.null, false⟩)]]⟩
  have hpassive : condition.IsPassive := by
    intro k hk
    rw [Node.subtrees, List.mem_singleton] at hk
    rw [hk]
    rfl
  have hvalue : condition.evaluate c = .ok (.number Binary64.notANumber) c := by
    rfl
  have hnames : ∀ n ∈ block, ∀ name ∈ n.changedNames, name ∉ condition.names := by
    intro n hn name hname
    obtain rfl := List.mem_singleton.mp hn
    obtain rfl : name = "y" := List.mem_singleton.mp hname
    decide
  have hfalse : (Value.number Binary64.notANumber).isTruthy = false := by
    decide +kernel
  have hruns := evaluate_alternatives hpassive hvalue hnames other .start .start
  rw [hfalse] at hruns
  exact ⟨condition, block, other, c, _, hpassive, hvalue, hnames, hruns, rfl⟩

end LetLang
