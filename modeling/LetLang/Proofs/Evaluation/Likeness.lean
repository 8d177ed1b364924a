import LetLang.Proofs.Evaluation.Placement
import LetLang.Proofs.Scope.Relation

/-!
# Evaluating trees that are alike

Two runs are compared by what their values, their faults and their chains of scopes have in
common. Such a likeness is carried through an evaluation: if the roots of two trees do
alike what they do with the values of their parts, and the parts are alike in turn, then
the trees run alike. That is `Likeness.runsAlike_evaluate`. It is the one induction behind
the results that compare two evaluations, or an evaluation with itself.
-/

namespace LetLang

open Evaluation

/-- What two runs have in common. -/
structure Likeness where
  value : Value → Value → Prop
  fault : Fault → Fault → Prop
  chain : Chain → Chain → Prop
  /-- Nothing is said of a run that ends with such a fault. -/
  excused : Fault → Prop

namespace Likeness

/-- The runs end alike: both with values or both with faults, unless one of them
is excused. -/
inductive EndsAlike (L : Likeness) :
    EStateM.Result Fault Chain Value → EStateM.Result Fault Chain Value → Prop
  | ok
      {v w : Value} {c d : Chain}
      (hvalue : L.value v w)
      (hchain : L.chain c d) :
      EndsAlike L (.ok v c) (.ok w d)
  | error
      {f g : Fault} {c d : Chain}
      (hfault : L.fault f g)
      (hchain : L.chain c d) :
      EndsAlike L (.error f c) (.error g d)
  | excusedLeft
      {f : Fault} {c : Chain} {other : EStateM.Result Fault Chain Value}
      (h : L.excused f) :
      EndsAlike L (.error f c) other
  | excusedRight
      {f : Fault} {d : Chain} {other : EStateM.Result Fault Chain Value}
      (h : L.excused f) :
      EndsAlike L other (.error f d)

/-- Run in chains that are alike, the computations end alike. -/
def RunsAlike (L : Likeness) (m m' : Evaluation Value) : Prop :=
  ∀ c d, L.chain c d → L.EndsAlike (m c) (m' d)

/-- The answers of an operation at these positions are alike. -/
inductive AnswersAlike (L : Likeness) (p q : Pos) :
    Except Cause Value → Except Cause Value → Prop
  | ok
      {v w : Value}
      (hvalue : L.value v w) :
      AnswersAlike L p q (.ok v) (.ok w)
  | error
      {a b : Cause}
      (hfault : L.fault ⟨a, p⟩ ⟨b, q⟩) :
      AnswersAlike L p q (.error a) (.error b)
  | excusedLeft
      {a : Cause} {other : Except Cause Value}
      (h : L.excused ⟨a, p⟩) :
      AnswersAlike L p q (.error a) other
  | excusedRight
      {b : Cause} {other : Except Cause Value}
      (h : L.excused ⟨b, q⟩) :
      AnswersAlike L p q other (.error b)

variable {L : Likeness}

section Rules

theorem runsAlike_pure
    {v w : Value}
    (h : L.value v w) :
    L.RunsAlike (pure v) (pure w) := by
  intro c d hchain
  exact .ok h hchain

theorem runsAlike_fail
    {p q : Pos} {a b : Cause}
    (h : L.fault ⟨a, p⟩ ⟨b, q⟩) :
    L.RunsAlike (fail p a) (fail q b) := by
  intro c d hchain
  exact .error h hchain

theorem RunsAlike.bind
    {m m' : Evaluation Value} {g g' : Value → Evaluation Value}
    (hm : L.RunsAlike m m')
    (hg : ∀ v w, L.value v w → L.RunsAlike (g v) (g' w)) :
    L.RunsAlike (m >>= g) (m' >>= g') := by
  intro c d hchain
  have hfirst := hm c d hchain
  simp only [Bind.bind, EStateM.bind]
  generalize m c = r at hfirst ⊢
  generalize m' d = r' at hfirst ⊢
  cases hfirst with
  | ok hvalue hnext => exact hg _ _ hvalue _ _ hnext
  | error hfault hnext => exact .error hfault hnext
  | excusedLeft h => exact .excusedLeft h
  | excusedRight h => exact .excusedRight h

theorem AnswersAlike.located
    {p q : Pos} {answer answer' : Except Cause Value}
    (h : L.AnswersAlike p q answer answer') :
    L.RunsAlike (located p answer) (located q answer') := by
  intro c d hchain
  cases h with
  | ok hvalue => exact .ok hvalue hchain
  | error hfault => exact .error hfault hchain
  | excusedLeft h => exact .excusedLeft h
  | excusedRight h => exact .excusedRight h

end Rules

/-- The likeness of chains that bind the same names to values that are alike. -/
def ofValues (value : Value → Value → Prop) (fault : Fault → Fault → Prop)
    (excused : Fault → Prop) : Likeness :=
  ⟨value, fault, Chain.Related value, excused⟩

section Accesses

variable {V : Value → Value → Prop} {F : Fault → Fault → Prop} {E : Fault → Prop}
variable {p q : Pos} {name : String} {v w : Value}

theorem runsAlike_lookup
    (hunknown : F ⟨.notDeclared name, p⟩ ⟨.notDeclared name, q⟩) :
    (ofValues V F E).RunsAlike (lookup p name) (lookup q name) := by
  intro c d hchain
  have hfound := Chain.corresponds_findIn? hchain name
  unfold lookup Chain.lookup
  generalize Chain.findIn? name c.scopes = found at hfound ⊢
  generalize Chain.findIn? name d.scopes = found' at hfound ⊢
  cases hfound with
  | none => exact .error hunknown hchain
  | some hab => exact .ok hab.value hchain

theorem runsAlike_declare
    (hknown : F ⟨.alreadyDeclared name, p⟩ ⟨.alreadyDeclared name, q⟩)
    (constant : Bool)
    (hvalue : V v w) :
    (ofValues V F E).RunsAlike (declare p name constant v)
      (declare q name constant w) := by
  intro c d hchain
  have hrelated : c.Related V d := hchain
  have hfound := hrelated.inner name
  unfold declare Chain.declare
  generalize c.inner.find? name = found at hfound ⊢
  generalize d.inner.find? name = found' at hfound ⊢
  cases hfound with
  | none =>
      have hnew : Binding.Related V ⟨v, constant⟩ ⟨w, constant⟩ := ⟨hvalue, rfl⟩
      exact .ok hvalue (.cons (hrelated.inner.put hnew name) hrelated.outer)
  | some _ => exact .error hknown hchain

theorem runsAlike_assign
    (hunknown : F ⟨.notDeclared name, p⟩ ⟨.notDeclared name, q⟩)
    (hconstant : F ⟨.constantName name, p⟩ ⟨.constantName name, q⟩)
    (hvalue : V v w) :
    (ofValues V F E).RunsAlike (assign p name v) (assign q name w) := by
  intro c d hchain
  have hrelated : c.Related V d := hchain
  have hfound := Chain.corresponds_findIn? hrelated name
  unfold assign Chain.assign
  generalize Chain.findIn? name c.scopes = found at hfound ⊢
  generalize Chain.findIn? name d.scopes = found' at hfound ⊢
  cases hfound with
  | none => exact .error hunknown hchain
  | @some a b hab =>
      -- both are constants, or both are variables
      dsimp only
      rw [hab.constant_eq]
      cases b.constant with
      | true => exact .error hconstant hchain
      | false => exact .ok hvalue (hrelated.set hvalue name)

end Accesses

/-- The roots of the trees do alike what they do with the values of their parts, and the
parts are related by `T` one by one. -/
inductive RootsAlike (L : Likeness) (T : Node → Node → Prop) : Node → Node → Prop
  | program
      {p q : Pos} {body body' : List Node}
      (hnull : L.value .null .null)
      (hbody : List.Forall₂ T body body') :
      RootsAlike L T (.program p body) (.program q body')
  | declaration
      {p q namePos namePos' : Pos} {name : String} {constant : Bool}
      (hdeclare : L.RunsAlike (declare namePos name constant .null)
        (declare namePos' name constant .null)) :
      RootsAlike L T (.declaration p name namePos constant none)
        (.declaration q name namePos' constant none)
  | initialized
      {p q namePos namePos' : Pos} {name : String} {constant : Bool} {value value' : Node}
      (hvalue : T value value')
      (hdeclare : ∀ v w, L.value v w →
        L.RunsAlike (declare namePos name constant v) (declare namePos' name constant w)) :
      RootsAlike L T (.declaration p name namePos constant (some value))
        (.declaration q name namePos' constant (some value'))
  | conditional
      {p q : Pos} {branch : Branch} {condition condition' : Node}
      {block block' : List Node}
      (hnull : L.value .null .null)
      (htruthy : ∀ v w, L.value v w → v.isTruthy = w.isTruthy)
      (hcondition : T condition condition')
      (hblock : List.Forall₂ T block block') :
      RootsAlike L T (.conditional p branch condition block)
        (.conditional q branch condition' block')
  | identifier
      {p q : Pos} {name : String}
      (hlookup : L.RunsAlike (lookup p name) (lookup q name)) :
      RootsAlike L T (.identifier p name) (.identifier q name)
  | number
      {p q : Pos} {x y : Float}
      (hnumber : L.value (.number x) (.number y)) :
      RootsAlike L T (.number p x) (.number q y)
  | string
      {p q : Pos} {text : String}
      (hstring : L.value (.string text) (.string text)) :
      RootsAlike L T (.string p text) (.string q text)
  | arithmetic
      {p q symbolPos symbolPos' : Pos} {symbol : String} {left right left' right' : Node}
      (hleft : T left left')
      (hright : T right right')
      (hanswer : ∀ l l' r r', L.value l l' → L.value r r' →
        L.AnswersAlike symbolPos symbolPos' (Value.arithmetic symbol l r)
          (Value.arithmetic symbol l' r')) :
      RootsAlike L T (.operation .arithmetic p symbol symbolPos left right)
        (.operation .arithmetic q symbol symbolPos' left' right')
  | logical
      {p q symbolPos symbolPos' : Pos} {symbol : String} {left right left' right' : Node}
      (hleft : T left left')
      (hright : T right right')
      (hanswer : ∀ l l' r r', L.value l l' → L.value r r' →
        L.AnswersAlike symbolPos symbolPos' (Value.logical symbol l r)
          (Value.logical symbol l' r')) :
      RootsAlike L T (.operation .logical p symbol symbolPos left right)
        (.operation .logical q symbol symbolPos' left' right')
  | untyped
      {p q symbolPos symbolPos' : Pos} {symbol symbol' : String}
      {left right left' right' : Node}
      (hfault : L.fault ⟨.notEvaluable Family.untyped.kindName, .unknown⟩
        ⟨.notEvaluable Family.untyped.kindName, .unknown⟩) :
      RootsAlike L T (.operation .untyped p symbol symbolPos left right)
        (.operation .untyped q symbol' symbolPos' left' right')
  | unary
      {p q : Pos} {symbol : String} {operand operand' : Node}
      (hoperand : T operand operand')
      (hanswer : ∀ v w, L.value v w →
        L.AnswersAlike p q (Value.unary symbol v) (Value.unary symbol w)) :
      RootsAlike L T (.unary p symbol operand) (.unary q symbol operand')
  | assignment
      {p q namePos namePos' : Pos} {name : String} {value value' : Node}
      (hreserved : L.fault ⟨.reservedName name, namePos⟩ ⟨.reservedName name, namePos'⟩)
      (hvalue : T value value')
      (hassign : ∀ v w, L.value v w →
        L.RunsAlike (assign namePos name v) (assign namePos' name w)) :
      RootsAlike L T (.assignment p (.identifier namePos name) value)
        (.assignment q (.identifier namePos' name) value')
  | notAssignable
      {p q : Pos} {target target' value value' : Node}
      (htarget : ∀ pos name, target ≠ .identifier pos name)
      (htarget' : ∀ pos name, target' ≠ .identifier pos name)
      (hfault : L.fault ⟨.notAssignable target.kindName, target.pos⟩
        ⟨.notAssignable target'.kindName, target'.pos⟩) :
      RootsAlike L T (.assignment p target value) (.assignment q target' value')
  | unknown
      {p q : Pos} {kindName : String}
      (hfault : L.fault ⟨.notEvaluable kindName, .unknown⟩
        ⟨.notEvaluable kindName, .unknown⟩) :
      RootsAlike L T (.unknown p kindName) (.unknown q kindName)

variable {T : Node → Node → Prop}

mutual

/-- Trees run alike if all related trees have roots that do alike what they do. -/
theorem runsAlike_evaluate (hT : ∀ n m, T n m → L.RootsAlike T n m) :
    (n m : Node) → T n m → L.RunsAlike n.evaluate m.evaluate
  | .program p body, m, h => by
      cases hT _ m h with
      | program hnull hbody =>
          rw [Node.evaluate, Node.evaluate]
          exact runsAlike_evaluateAll hT hnull body _ hbody
  | .declaration p name namePos constant none, m, h => by
      cases hT _ m h with
      | declaration hdeclare =>
          rw [Node.evaluate, Node.evaluate]
          exact hdeclare
  | .declaration p name namePos constant (some value), m, h => by
      cases hT _ m h with
      | initialized hvalue hdeclare =>
          rw [Node.evaluate, Node.evaluate]
          exact (runsAlike_evaluate hT value _ hvalue).bind hdeclare
  | .conditional p branch condition block, m, h => by
      cases hT _ m h with
      | conditional hnull htruthy hcondition hblock =>
          have hblock := runsAlike_evaluateAll hT hnull block _ hblock
          rw [Node.evaluate, Node.evaluate]
          refine (runsAlike_evaluate hT condition _ hcondition).bind fun v w hvw => ?_
          -- both conditions hold, or neither does
          rw [htruthy v w hvw]
          split
          · exact hblock.bind fun _ _ _ => runsAlike_pure hnull
          · exact runsAlike_pure hnull
  | .identifier p name, m, h => by
      cases hT _ m h with
      | identifier hlookup =>
          rw [Node.evaluate, Node.evaluate]
          exact hlookup
  | .number p x, m, h => by
      cases hT _ m h with
      | number hnumber =>
          rw [Node.evaluate, Node.evaluate]
          exact runsAlike_pure hnumber
  | .string p text, m, h => by
      cases hT _ m h with
      | string hstring =>
          rw [Node.evaluate, Node.evaluate]
          exact runsAlike_pure hstring
  | .operation family p symbol symbolPos left right, m, h => by
      cases hT _ m h with
      | arithmetic hleft hright hanswer =>
          have hl := runsAlike_evaluate hT left _ hleft
          have hr := runsAlike_evaluate hT right _ hright
          rw [Node.evaluate, Node.evaluate]
          exact hl.bind fun l l' hll => hr.bind fun r r' hrr =>
            (hanswer l l' r r' hll hrr).located
      | logical hleft hright hanswer =>
          have hl := runsAlike_evaluate hT left _ hleft
          have hr := runsAlike_evaluate hT right _ hright
          rw [Node.evaluate, Node.evaluate]
          exact hl.bind fun l l' hll => hr.bind fun r r' hrr =>
            (hanswer l l' r r' hll hrr).located
      | untyped hfault =>
          rw [Node.evaluate, Node.evaluate]
          exact runsAlike_fail hfault
  | .unary p symbol operand, m, h => by
      cases hT _ m h with
      | unary hoperand hanswer =>
          rw [Node.evaluate, Node.evaluate]
          exact (runsAlike_evaluate hT operand _ hoperand).bind fun v w hvw =>
            (hanswer v w hvw).located
  | .assignment p target value, m, h => by
      cases hT _ m h with
      | assignment hreserved hvalue hassign =>
          rw [Node.evaluate, Node.evaluate]
          split
          · exact runsAlike_fail hreserved
          · exact (runsAlike_evaluate hT value _ hvalue).bind hassign
      | notAssignable htarget htarget' hfault =>
          rw [Node.evaluate_assignment_of_not_identifier _ _ htarget,
            Node.evaluate_assignment_of_not_identifier _ _ htarget']
          exact runsAlike_fail hfault
  | .unknown p kindName, m, h => by
      cases hT _ m h with
      | unknown hfault =>
          rw [Node.evaluate, Node.evaluate]
          exact runsAlike_fail hfault

theorem runsAlike_evaluateAll (hT : ∀ n m, T n m → L.RootsAlike T n m)
    {last last' : Value} (hlast : L.value last last') :
    (ns ms : List Node) → List.Forall₂ T ns ms →
      L.RunsAlike (evaluateAll last ns) (evaluateAll last' ms)
  | [], _, .nil => by
      rw [evaluateAll, evaluateAll]
      exact runsAlike_pure hlast
  | n :: ns, _, .cons hn hns => by
      rw [evaluateAll, evaluateAll]
      exact (runsAlike_evaluate hT n _ hn).bind fun v w hvw =>
        runsAlike_evaluateAll hT hvw ns _ hns

end

/-- A tree with a property runs alike in two chains, if its parts have the property as well
and its root does alike what it does. -/
theorem runsAlike_evaluate_self
    {P : Node → Prop} {n : Node}
    (hP : ∀ n, P n → L.RootsAlike (fun k m => k = m ∧ P k) n n)
    (h : P n) :
    L.RunsAlike n.evaluate n.evaluate := by
  refine runsAlike_evaluate (T := fun k m => k = m ∧ P k) ?_ n n ⟨rfl, h⟩
  rintro k _ ⟨rfl, hk⟩
  exact hP k hk

end Likeness
end LetLang
