import LetLang.Proofs.Evaluation.Likeness
import LetLang.Proofs.Tree.WellFormed

/-!
# Types decide what evaluation does

Two chains of scopes are alike if they bind the same names in the same scopes, as variables
or as constants alike, to values of the same types. A tree without conditional blocks
cannot tell them apart: it evaluates to values of the same type in both, or fails in both
with the same fault, and leaves chains behind that are alike again. The one thing that
depends on more than types is whether a divisor is zero, so nothing is said of evaluations
that divide by it.
-/

namespace LetLang

/-- The values have the same type. -/
def Value.SameType (v w : Value) : Prop :=
  v.typeName = w.typeName

/-- The chains have equally many scopes, and scope by scope these bind the same names, as
variables or as constants alike, to values of the same types. The order of declaration
may differ. -/
def Chain.Alike (c d : Chain) : Prop :=
  c.Related Value.SameType d

namespace Node

mutual

/-- There is no conditional block anywhere in the tree. -/
def isUnconditional : Node → Bool
  | program _ body => areUnconditional body
  | declaration _ _ _ _ none => true
  | declaration _ _ _ _ (some value) => isUnconditional value
  | conditional _ _ _ _ => false
  | operation _ _ _ _ left right => isUnconditional left && isUnconditional right
  | unary _ _ operand => isUnconditional operand
  | assignment _ target value => isUnconditional target && isUnconditional value
  | identifier _ _ | number _ _ | string _ _ | unknown _ _ => true

/-- There is no conditional block anywhere in the trees. -/
def areUnconditional : List Node → Bool
  | [] => true
  | n :: ns => isUnconditional n && areUnconditional ns

end

theorem isUnconditional_of_isExpression :
    (n : Node) → n.IsExpression → n.isUnconditional = true
  | .identifier _ _, _ => rfl
  | .number _ _, _ => rfl
  | .string _ _, _ => rfl
  | .operation _ _ _ _ left right, h => by
      have hleft := isUnconditional_of_isExpression left h.2.1
      have hright := isUnconditional_of_isExpression right h.2.2
      rw [isUnconditional, hleft, hright, Bool.and_self]
  | .unary _ _ operand, h => by
      rw [isUnconditional, isUnconditional_of_isExpression operand h.2]
  | .assignment _ target value, h => by
      have htarget := isUnconditional_of_isExpression target h.1
      have hvalue := isUnconditional_of_isExpression value h.2
      rw [isUnconditional, htarget, hvalue, Bool.and_self]

theorem isUnconditional_of_isStatement
    {n : Node}
    (h : n.IsStatement) :
    n.isUnconditional = true := by
  cases n with
  | declaration _ _ _ _ value =>
      cases value with
      | none => rw [isUnconditional]
      | some value =>
          rw [isUnconditional]
          exact isUnconditional_of_isExpression value h.2
  | _ => exact isUnconditional_of_isExpression _ h

theorem areUnconditional_iff
    {ns : List Node} :
    areUnconditional ns = true ↔ ∀ n ∈ ns, n.isUnconditional = true := by
  induction ns with
  | nil => simp [areUnconditional]
  | cons n ns ih => rw [areUnconditional, Bool.and_eq_true, ih, List.forall_mem_cons]

end Node

/-- No program text has a conditional block. -/
theorem isUnconditional_of_parse
    {source : String} {program : Node}
    (h : parse source = .ok program) :
    program.isUnconditional = true := by
  have hprogram := isProgram_of_parse h
  cases program with
  | program pos body =>
      rw [Node.isUnconditional]
      exact Node.areUnconditional_iff.mpr fun n hn =>
        Node.isUnconditional_of_isStatement (hprogram n hn)
  | _ => exact hprogram.elim

namespace Value

theorem SameType.refl
    (v : Value) :
    v.SameType v := by
  rfl

theorem sameType_number
    (x y : Float) :
    (number x).SameType (number y) := by
  rfl

theorem sameType_string
    (s t : String) :
    (string s).SameType (string t) := by
  rfl

theorem sameType_bool
    (a b : Bool) :
    (bool a).SameType (bool b) := by
  rfl

/-- There are four types. -/
theorem SameType.cases
    {v w : Value}
    (h : v.SameType w) :
    (v = null ∧ w = null) ∨ (∃ x y, v = number x ∧ w = number y) ∨
      (∃ s t, v = string s ∧ w = string t) ∨
      ∃ a b, v = bool a ∧ w = bool b := by
  cases v <;> cases w
  case null.null => exact Or.inl ⟨rfl, rfl⟩
  case number.number x y => exact Or.inr (Or.inl ⟨x, y, rfl, rfl⟩)
  case string.string s t => exact Or.inr (Or.inr (Or.inl ⟨s, t, rfl, rfl⟩))
  case bool.bool a b => exact Or.inr (Or.inr (Or.inr ⟨a, b, rfl, rfl⟩))
  all_goals exact absurd h (by simp [SameType, typeName])

theorem SameType.isString_eq
    {v w : Value}
    (h : v.SameType w) :
    v.isString = w.isString := by
  rcases h.cases with ⟨rfl, rfl⟩ | ⟨x, y, rfl, rfl⟩ | ⟨s, t, rfl, rfl⟩ | ⟨a, b, rfl, rfl⟩
  all_goals rfl

/-- Whether a value counts as a number depends on its type. -/
theorem SameType.toNumber?_cases
    {v w : Value}
    (h : v.SameType w) :
    (v.toNumber? = none ∧ w.toNumber? = none) ∨ ∃ x y, v.toNumber? = some x ∧
      w.toNumber? = some y := by
  rcases h.cases with ⟨rfl, rfl⟩ | ⟨x, y, rfl, rfl⟩ | ⟨s, t, rfl, rfl⟩ | ⟨a, b, rfl, rfl⟩
  · exact Or.inl ⟨rfl, rfl⟩
  · exact Or.inr ⟨x, y, rfl, rfl⟩
  · exact Or.inl ⟨rfl, rfl⟩
  · cases a <;> cases b <;> exact Or.inr ⟨_, _, rfl, rfl⟩

end Value

/-- The likeness of runs with values of the same types and the same faults. A run that
divides by zero is excused. -/
def Likeness.types : Likeness :=
  .ofValues Value.SameType Eq fun fault => fault.cause = .divisionByZero

open Likeness (types)

namespace Value

/-- Whether a sign goes with a value depends on the type of the value. -/
theorem SameType.unary
    {v w : Value}
    (h : v.SameType w)
    (pos : Pos) (symbol : String) :
    types.AnswersAlike pos pos (unary symbol v) (unary symbol w) := by
  have hrefused : ∀ u : Value, ¬ (symbol = "-" ∧ ∃ x, u = number x) →
      ¬ (symbol = "!" ∧ ∃ b, u = bool b) →
      Value.unary symbol u = .error (.unaryOperand symbol u.typeName) := by
    intro u hminus hnot
    unfold Value.unary
    split
    · exact absurd ⟨rfl, _, rfl⟩ hminus
    · exact absurd ⟨rfl, _, rfl⟩ hnot
    · rfl
  rcases h.cases with ⟨rfl, rfl⟩ | ⟨x, y, rfl, rfl⟩ | ⟨s, t, rfl, rfl⟩ | ⟨a, b, rfl, rfl⟩
  · rw [hrefused null (by simp) (by simp)]
    exact .error rfl
  · by_cases hminus : symbol = "-"
    · subst hminus
      exact .ok (sameType_number (-x) (-y))
    · rw [hrefused (number x) (by simp [hminus]) (by simp),
        hrefused (number y) (by simp [hminus]) (by simp)]
      exact .error rfl
  · rw [hrefused (string s) (by simp) (by simp), hrefused (string t) (by simp) (by simp)]
    exact .error rfl
  · by_cases hnot : symbol = "!"
    · subst hnot
      exact .ok (sameType_bool (!a) (!b))
    · rw [hrefused (bool a) (by simp) (by simp [hnot]),
        hrefused (bool b) (by simp) (by simp [hnot])]
      exact .error rfl

/-- Numbers are refused for an unknown operator and for nothing else but a zero divisor. -/
theorem answersAlike_numeric
    (pos : Pos) (symbol : String) (x y x' y' : Float) :
    types.AnswersAlike pos pos (numeric symbol x y) (numeric symbol x' y') := by
  unfold numeric
  cases ArithOp.ofSymbol? symbol with
  | none => exact .error rfl
  | some op =>
      by_cases hzero : op = .div ∧ (y == 0) = true
      · simp only [if_pos hzero]
        exact .excusedLeft rfl
      · by_cases hzero' : op = .div ∧ (y' == 0) = true
        · simp only [if_pos hzero']
          exact .excusedRight rfl
        · simp only [if_neg hzero, if_neg hzero']
          exact .ok (sameType_number _ _)

section Operations

variable {l r l' r' : Value}

theorem SameType.arithmetic
    (hl : l.SameType l')
    (hr : r.SameType r')
    (pos : Pos) (symbol : String) :
    types.AnswersAlike pos pos (arithmetic symbol l r) (arithmetic symbol l' r') := by
  have hlname : l.typeName = l'.typeName := hl
  have hrname : r.typeName = r'.typeName := hr
  unfold Value.arithmetic
  rw [hl.isString_eq, hr.isString_eq, hlname, hrname]
  split
  · split
    · exact .ok (sameType_string _ _)
    · exact .error rfl
  · rcases hl.toNumber?_cases with ⟨hx, hx'⟩ | ⟨x, x', hx, hx'⟩
    · rw [hx, hx']
      exact .ok (SameType.refl null)
    · rcases hr.toNumber?_cases with ⟨hy, hy'⟩ | ⟨y, y', hy, hy'⟩
      · rw [hx, hx', hy, hy']
        exact .ok (SameType.refl null)
      · rw [hx, hx', hy, hy']
        exact answersAlike_numeric pos symbol x y x' y'

theorem SameType.logical
    (hl : l.SameType l')
    (hr : r.SameType r')
    (pos : Pos) (symbol : String) :
    types.AnswersAlike pos pos (logical symbol l r) (logical symbol l' r') := by
  have hlname : l.typeName = l'.typeName := hl
  have hrname : r.typeName = r'.typeName := hr
  unfold Value.logical
  rw [hl.isString_eq, hr.isString_eq, hlname, hrname]
  split
  · split
    · exact .ok (sameType_bool _ _)
    · split
      · exact .ok (sameType_bool _ _)
      · exact .error rfl
  · rcases hl.toNumber?_cases with ⟨hx, hx'⟩ | ⟨x, x', hx, hx'⟩
    · rw [hx, hx']
      exact .ok (sameType_bool _ _)
    · rcases hr.toNumber?_cases with ⟨hy, hy'⟩ | ⟨y, y', hy, hy'⟩
      · rw [hx, hx', hy, hy']
        exact .ok (sameType_bool _ _)
      · rw [hx, hx', hy, hy']
        cases LogicOp.ofSymbol? symbol with
        | none => exact .error rfl
        | some op => exact .ok (sameType_bool _ _)

end Operations
end Value

namespace Node

/-- What a node does itself depends only on types, unless it is a conditional block. -/
theorem rootsAlike_of_isUnconditional
    (n : Node)
    (h : n.isUnconditional = true) :
    types.RootsAlike (fun k m => k = m ∧ k.isUnconditional = true) n n := by
  cases n with
  | program pos body =>
      rw [isUnconditional, areUnconditional_iff] at h
      exact .program (.refl .null) (List.forall₂_same.mpr fun m hm => ⟨rfl, h m hm⟩)
  | declaration pos name namePos constant value =>
      have hdeclare : ∀ v w, v.SameType w →
          types.RunsAlike (Evaluation.declare namePos name constant v)
          (Evaluation.declare namePos name constant w) := fun v w hvw =>
        Likeness.runsAlike_declare rfl constant hvw
      cases value with
      | none => exact .declaration (hdeclare .null .null (.refl .null))
      | some value =>
          rw [isUnconditional] at h
          exact .initialized ⟨rfl, h⟩ hdeclare
  | conditional => cases h
  | identifier pos name => exact .identifier (Likeness.runsAlike_lookup rfl)
  | number pos x => exact .number (.refl _)
  | string pos text => exact .string (.refl _)
  | operation family pos symbol symbolPos left right =>
      rw [isUnconditional, Bool.and_eq_true] at h
      cases family with
      | arithmetic =>
          exact .arithmetic ⟨rfl, h.1⟩ ⟨rfl, h.2⟩ fun l l' r r' hl hr =>
            hl.arithmetic hr symbolPos symbol
      | logical =>
          exact .logical ⟨rfl, h.1⟩ ⟨rfl, h.2⟩ fun l l' r r' hl hr =>
            hl.logical hr symbolPos symbol
      | untyped => exact .untyped rfl
  | unary pos symbol operand =>
      rw [isUnconditional] at h
      exact .unary ⟨rfl, h⟩ fun v w hvw => hvw.unary pos symbol
  | assignment pos target value =>
      rw [isUnconditional, Bool.and_eq_true] at h
      rcases target.identifier_or_not with ⟨namePos, name, rfl⟩ | htarget
      · exact .assignment rfl ⟨rfl, h.2⟩ fun v w hvw =>
          Likeness.runsAlike_assign rfl rfl hvw
      · exact .notAssignable htarget htarget rfl
  | unknown pos kindName => exact .unknown rfl

/-- A tree without conditional blocks runs alike in chains that are alike. -/
theorem runsAlike_types
    {n : Node}
    (h : n.isUnconditional = true) :
    types.RunsAlike n.evaluate n.evaluate := by
  exact Likeness.runsAlike_evaluate_self rootsAlike_of_isUnconditional h

end Node

/-- The run ends because a divisor is zero. -/
def DividesByZero {α : Type} (r : EStateM.Result Fault Chain α) : Prop :=
  ∃ fault c, r = .error fault c ∧ fault.cause.kind = .zeroDivision

/--
In chains that are alike, a tree without conditional blocks gives values of the same type
or the same fault, unless a divisor is zero, and leaves chains that are alike.
-/
theorem evaluate_static
    {n : Node} {c d : Chain}
    (hn : n.isUnconditional = true ∨ ∃ source, parse source = .ok n)
    (hchain : c.Alike d)
    (hc : ¬ DividesByZero (n.evaluate c))
    (hd : ¬ DividesByZero (n.evaluate d)) :
    (∃ v w c' d', n.evaluate c = .ok v c' ∧ n.evaluate d = .ok w d' ∧
      v.SameType w ∧ c'.Alike d') ∨
      ∃ fault c' d', n.evaluate c = .error fault c' ∧
        n.evaluate d = .error fault d' ∧ c'.Alike d' := by
  have hunconditional : n.isUnconditional = true := by
    rcases hn with hn | ⟨source, hparse⟩
    · exact hn
    · exact isUnconditional_of_parse hparse
  have hends := Node.runsAlike_types hunconditional c d hchain
  generalize n.evaluate c = r at hends hc ⊢
  generalize n.evaluate d = r' at hends hd ⊢
  cases hends with
  | ok hvalue hnext => exact Or.inl ⟨_, _, _, _, rfl, rfl, hvalue, hnext⟩
  | error hfault hnext =>
      cases hfault
      exact Or.inr ⟨_, _, _, rfl, rfl, hnext⟩
  | excusedLeft hzero => exact absurd ⟨_, _, rfl, congrArg Cause.kind hzero⟩ hc
  | excusedRight hzero => exact absurd ⟨_, _, rfl, congrArg Cause.kind hzero⟩ hd

/-- A truth value joined to a string is a string, whichever it is, from which nothing is
subtracted. What was declared before the failure differs in both chains, and is a string
in both. -/
theorem evaluate_static_mismatch :
    ∃ program c' d', parse "let y = x + \"a\"; y - x" = .ok program ∧
      program.evaluate (.single [("x", ⟨.bool true, false⟩), ("z", ⟨.null, true⟩)]) =
        .error ⟨.mismatch "-" "string" "bool", ⟨1, 20⟩⟩ c' ∧
      program.evaluate (.single [("z", ⟨.null, true⟩), ("x", ⟨.bool false, false⟩)]) =
        .error ⟨.mismatch "-" "string" "bool", ⟨1, 20⟩⟩ d' ∧
      c'.Alike d' ∧ c'.lookup "y" = .ok (.string "truea") ∧
        d'.lookup "y" = .ok (.string "falsea") := by
  have htokens : tokenize "let y = x + \"a\"; y - x" =
      .ok ⟨[⟨.declare false, ⟨1, 1⟩⟩, ⟨.identifier "y", ⟨1, 5⟩⟩,
        ⟨.operator .assign, ⟨1, 7⟩⟩, ⟨.identifier "x", ⟨1, 9⟩⟩,
        ⟨.operator (.binary (.arith .add)), ⟨1, 11⟩⟩, ⟨.string "a", ⟨1, 13⟩⟩,
        ⟨.semicolon, ⟨1, 16⟩⟩, ⟨.identifier "y", ⟨1, 18⟩⟩,
        ⟨.operator (.binary (.arith .sub)), ⟨1, 20⟩⟩,
        ⟨.identifier "x", ⟨1, 22⟩⟩], ⟨1, 23⟩⟩ := by
    decide +kernel
  have hparse : parse "let y = x + \"a\"; y - x" = .ok (.program .unknown
      [.declaration ⟨1, 1⟩ "y" ⟨1, 5⟩ false (some
        (.operation .arithmetic ⟨1, 9⟩ "+" ⟨1, 11⟩
          (.identifier ⟨1, 9⟩ "x") (.string ⟨1, 13⟩ "a"))),
        .operation .arithmetic ⟨1, 18⟩ "-" ⟨1, 20⟩ (.identifier ⟨1, 18⟩ "y")
          (.identifier ⟨1, 22⟩ "x")]) :=
    (parse_of_tokenize htokens).trans rfl
  have halike : Chain.Alike (.single [("x", ⟨.bool true, false⟩), ("z", ⟨.null, true⟩)])
      (.single [("z", ⟨.null, true⟩), ("x", ⟨.bool false, false⟩)]) := by
    refine .cons ?_ .nil
    intro name
    by_cases hx : "x" = name
    · subst hx
      exact .some ⟨rfl, rfl⟩
    · by_cases hz : "z" = name
      · subst hz
        exact .some ⟨rfl, rfl⟩
      · simp only [Chain.single, Scope.find?, Ledger.get?, if_neg hx, if_neg hz]
        exact .none
  have hends := evaluate_static (Or.inr ⟨_, hparse⟩) halike
    (by rintro ⟨fault, c', hrun, hkind⟩; cases hrun; cases hkind)
    (by rintro ⟨fault, c', hrun, hkind⟩; cases hrun; cases hkind)
  rcases hends with ⟨v, w, c', d', hrun, _⟩ | ⟨fault, c', d', hc, hd, hnext⟩
  · cases hrun
  · cases hc
    cases hd
    exact ⟨_, _, _, hparse, rfl, rfl, hnext, rfl, rfl⟩

end LetLang
