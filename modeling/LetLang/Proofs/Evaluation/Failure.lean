import LetLang.Evaluation

/-!
# How computations fail

`FailsOnly P m` says that every fault of the computation `m` satisfies `P`, whatever the
chain of scopes. It is shown along the structure of a computation. Only at its leaves does
it depend on `P`: a name that is looked up is not declared, one that is declared already
is, and one that is assigned to is either not declared or a constant.
-/

namespace LetLang
namespace Evaluation

/-- Every fault of the computation satisfies `P`, whatever the chain. -/
def FailsOnly {α : Type} (P : Fault → Prop) (m : Evaluation α) : Prop :=
  ∀ c fault c', m c = .error fault c' → P fault

variable {P : Fault → Prop}

theorem failsOnly_pure
    {α : Type} (a : α) :
    FailsOnly P (pure a) := by
  intro c fault c' h
  cases h

theorem FailsOnly.bind
    {α β : Type} {m : Evaluation α} {g : α → Evaluation β}
    (hm : FailsOnly P m)
    (hg : ∀ a, FailsOnly P (g a)) :
    FailsOnly P (m >>= g) := by
  intro c fault c' h
  cases hrun : m c with
  | ok a c₁ =>
      simp only [Bind.bind, EStateM.bind, hrun] at h
      exact hg a c₁ fault c' h
  | error fault₁ c₁ =>
      simp only [Bind.bind, EStateM.bind, hrun] at h
      cases h
      exact hm c fault c' hrun

theorem failsOnly_fail
    {α : Type} {pos : Pos} {cause : Cause}
    (h : P ⟨cause, pos⟩) :
    FailsOnly P (fail pos cause : Evaluation α) := by
  intro c fault c' herror
  cases herror
  exact h

theorem failsOnly_located
    {pos : Pos} {answer : Except Cause Value}
    (h : ∀ cause, answer = .error cause → P ⟨cause, pos⟩) :
    FailsOnly P (located pos answer) := by
  cases answer with
  | ok v => exact failsOnly_pure v
  | error cause => exact failsOnly_fail (h cause rfl)

theorem failsOnly_lookup
    {pos : Pos} {name : String}
    (h : P ⟨.notDeclared name, pos⟩) :
    FailsOnly P (lookup pos name) := by
  intro c fault c' herror
  unfold lookup Chain.lookup at herror
  cases hfind : Chain.findIn? name c.scopes with
  | none =>
      rw [hfind] at herror
      cases herror
      exact h
  | some b =>
      rw [hfind] at herror
      cases herror

theorem failsOnly_declare
    {pos : Pos} {name : String} {constant : Bool} {v : Value}
    (h : P ⟨.alreadyDeclared name, pos⟩) :
    FailsOnly P (declare pos name constant v) := by
  intro c fault c' herror
  unfold declare Chain.declare at herror
  cases hfind : c.inner.find? name with
  | none =>
      rw [hfind] at herror
      cases herror
  | some b =>
      rw [hfind] at herror
      cases herror
      exact h

theorem failsOnly_assign
    {pos : Pos} {name : String} {v : Value}
    (hunknown : P ⟨.notDeclared name, pos⟩)
    (hconstant : P ⟨.constantName name, pos⟩) :
    FailsOnly P (assign pos name v) := by
  intro c fault c' herror
  unfold assign Chain.assign at herror
  cases hfind : Chain.findIn? name c.scopes with
  | none =>
      rw [hfind] at herror
      cases herror
      exact hunknown
  | some b =>
      rw [hfind] at herror
      by_cases hb : b.constant = true
      · simp only [if_pos hb] at herror
        cases herror
        exact hconstant
      · simp only [if_neg hb] at herror
        cases herror

theorem failsOnly_evaluateAll
    (last : Value) {ns : List Node}
    (h : ∀ n ∈ ns, FailsOnly P n.evaluate) :
    FailsOnly P (evaluateAll last ns) := by
  induction ns generalizing last with
  | nil =>
      rw [evaluateAll]
      exact failsOnly_pure last
  | cons n ns ih =>
      rw [evaluateAll]
      exact (h n List.mem_cons_self).bind fun v => ih v fun m hm =>
        h m (List.mem_cons_of_mem n hm)

end Evaluation
end LetLang
