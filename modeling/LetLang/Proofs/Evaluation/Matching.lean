import LetLang.Proofs.Evaluation.Likeness
import LetLang.Proofs.Number.Matching

/-!
# Equal trees mean the same

Trees are compared without their positions, and their numbers as numbers, so that zero
equals minus zero. Evaluation does not tell such trees apart: from one chain of scopes they
lead to values of the same type and text, or fail for the same cause, and they leave chains
behind in which every name has a value of the same type and text. Only the places of faults
may differ.
-/

namespace LetLang

/-- The values are the same, or numbers that cannot be told apart. -/
inductive Value.Matches : Value → Value → Prop
  | same (v : Value) :
      Matches v v
  | number
      {x y : Float}
      (h : Binary64.Matches x y) :
      Matches (.number x) (.number y)

/-- The values have the same type and the same text. -/
structure Value.LooksLike (v w : Value) : Prop where
  typeName_eq : v.typeName = w.typeName
  text_eq : v.text = w.text

namespace Value.Matches

variable {v w l r l' r' : Value}

theorem looksLike
    (h : v.Matches w) :
    v.LooksLike w := by
  cases h with
  | same => exact ⟨rfl, rfl⟩
  | number hxy => exact ⟨rfl, hxy.display_eq⟩

theorem isTruthy_eq
    (h : v.Matches w) :
    v.isTruthy = w.isTruthy := by
  cases h with
  | same => rfl
  | number hxy => exact decide_eq_decide.mpr ((Binary64.Matches.refl 0).lt_iff hxy)

theorem isString_eq
    (h : v.Matches w) :
    v.isString = w.isString := by
  cases h <;> rfl

theorem toNumber?_rel
    (h : v.Matches w) :
    Option.Rel Binary64.Matches v.toNumber? w.toNumber? := by
  cases h with
  | number hxy => exact .some hxy
  | same =>
      cases v.toNumber? with
      | none => exact .none
      | some x => exact .some (.refl x)

theorem same_eq
    (hl : l.Matches l')
    (hr : r.Matches r') :
    l.same r = l'.same r' := by
  cases hl with
  | same =>
      cases hr with
      | same => rfl
      | number hy => cases l with
        | number x => exact (Binary64.Matches.refl x).beq_eq hy
        | _ => rfl
  | number hx =>
      cases hr with
      | same => cases r with
        | number y => exact hx.beq_eq (.refl y)
        | _ => rfl
      | number hy => exact hx.beq_eq hy

end Value.Matches

/-- The likeness of runs with matching values, and with faults of the same cause. -/
def Likeness.matching : Likeness :=
  .ofValues Value.Matches (fun f g => f.cause = g.cause) fun _ => False

open Likeness (matching)

theorem Likeness.answersAlike_matching
    (p q : Pos) (answer : Except Cause Value) :
    matching.AnswersAlike p q answer answer := by
  cases answer with
  | ok v => exact .ok (.same v)
  | error cause => exact .error rfl

open Likeness (answersAlike_matching)

namespace Value.Matches

variable {v w l r l' r' : Value}

theorem unary
    (h : v.Matches w)
    (p q : Pos) (symbol : String) :
    matching.AnswersAlike p q (Value.unary symbol v) (Value.unary symbol w) := by
  cases h with
  | same => exact answersAlike_matching p q _
  | @number x y hxy =>
      by_cases hminus : symbol = "-"
      · subst hminus
        exact .ok (.number hxy.neg)
      · have hrefused : ∀ z, Value.unary symbol (.number z) =
            .error (.unaryOperand symbol "number") := by
          intro z
          unfold Value.unary
          split
          · exact absurd rfl hminus
          · rename_i heq
            cases heq
          · rfl
        rw [hrefused, hrefused]
        exact .error rfl

/-- Numbers that match are divided by zero together or not at all. -/
theorem answersAlike_numeric
    {x x' y y' : Float}
    (hx : Binary64.Matches x x')
    (hy : Binary64.Matches y y')
    (p q : Pos) (symbol : String) :
    matching.AnswersAlike p q (Value.numeric symbol x y) (Value.numeric symbol x' y') := by
  have hzero := hy.beq_eq (.refl 0)
  unfold Value.numeric
  rw [hzero]
  cases ArithOp.ofSymbol? symbol with
  | none => exact .error rfl
  | some op =>
      dsimp only
      split
      · exact .error rfl
      · rename_i hdivides
        refine .ok (.number (hx.compute hy op ?_))
        intro hdiv
        rw [hzero]
        exact Bool.eq_false_iff.mpr fun hy0 => hdivides ⟨hdiv, hy0⟩

theorem arithmetic
    (hl : l.Matches l')
    (hr : r.Matches r')
    (p q : Pos) (symbol : String) :
    matching.AnswersAlike p q (Value.arithmetic symbol l r)
      (Value.arithmetic symbol l' r') := by
  have hx := hl.toNumber?_rel
  have hy := hr.toNumber?_rel
  unfold Value.arithmetic
  rw [hl.isString_eq, hr.isString_eq, hl.looksLike.typeName_eq, hr.looksLike.typeName_eq,
    hl.looksLike.text_eq, hr.looksLike.text_eq]
  split
  · exact answersAlike_matching p q _
  · generalize l.toNumber? = x at hx ⊢
    generalize l'.toNumber? = x' at hx ⊢
    generalize r.toNumber? = y at hy ⊢
    generalize r'.toNumber? = y' at hy ⊢
    cases hx with
    | none => exact answersAlike_matching p q _
    | some hx =>
        cases hy with
        | none => exact answersAlike_matching p q _
        | some hy => exact answersAlike_numeric hx hy p q symbol

theorem logical
    (hl : l.Matches l')
    (hr : r.Matches r')
    (p q : Pos) (symbol : String) :
    matching.AnswersAlike p q (Value.logical symbol l r) (Value.logical symbol l' r') := by
  have hx := hl.toNumber?_rel
  have hy := hr.toNumber?_rel
  unfold Value.logical
  rw [hl.isString_eq, hr.isString_eq, hl.looksLike.typeName_eq,
    hr.looksLike.typeName_eq, hl.same_eq hr]
  split
  · exact answersAlike_matching p q _
  · generalize l.toNumber? = x at hx ⊢
    generalize l'.toNumber? = x' at hx ⊢
    generalize r.toNumber? = y at hy ⊢
    generalize r'.toNumber? = y' at hy ⊢
    cases hx with
    | none => exact answersAlike_matching p q _
    | some hx =>
        cases hy with
        | none => exact answersAlike_matching p q _
        | some hy =>
            cases LogicOp.ofSymbol? symbol with
            | none => exact .error rfl
            | some op =>
                dsimp only
                rw [hx.decides_eq hy op]
                exact answersAlike_matching p q _

end Value.Matches

namespace Node

theorem forall₂_of_sameAll
    {ns ms : List Node}
    (h : sameAll ns ms = true) :
    List.Forall₂ (fun n m => n.same m = true) ns ms := by
  induction ns generalizing ms with
  | nil =>
      cases ms with
      | nil => exact .nil
      | cons m ms => simp [sameAll] at h
  | cons n ns ih =>
      cases ms with
      | nil => simp [sameAll] at h
      | cons m ms =>
          rw [sameAll, Bool.and_eq_true] at h
          exact .cons h.1 (ih h.2)

theorem kindName_eq_of_same
    {n m : Node}
    (h : n.same m = true) :
    n.kindName = m.kindName := by
  fun_cases same n m with
  | case8 =>
      simp only [same, Bool.and_eq_true, beq_iff_eq] at h
      simp only [kindName, h.1.1.1]
  | case11 =>
      rw [same, beq_iff_eq] at h
      exact h
  | case12 =>
      rw [same] at h
      · cases h
      all_goals assumption
  | _ => rfl

/-- What is the same as an identifier is an identifier. -/
theorem exists_identifier_of_same
    {n m : Node}
    (h : n.same m = true)
    (name : String) :
    (∃ p, n = .identifier p name) ↔ ∃ q, m = .identifier q name := by
  constructor
  · rintro ⟨p, rfl⟩
    cases m with
    | identifier q other =>
        rw [same, beq_iff_eq] at h
        exact ⟨q, by rw [h]⟩
    | _ => simp [same] at h
  · rintro ⟨q, rfl⟩
    cases n with
    | identifier p other =>
        rw [same, beq_iff_eq] at h
        exact ⟨p, by rw [h]⟩
    | declaration _ _ _ _ value => cases value <;> simp [same] at h
    | _ => simp [same] at h

/-- Trees that are the same have roots of one kind that say the same, with the
same parts. -/
theorem rootsAlike_of_same
    (n m : Node)
    (h : n.same m = true) :
    matching.RootsAlike (fun k k' => k.same k' = true) n m := by
  fun_cases same n m with
  | case1 p xs q ys =>
      rw [same] at h
      exact .program (.same .null) (forall₂_of_sameAll h)
  | case2 p name namePos constant q name' namePos' constant' =>
      simp only [same, Bool.and_eq_true, beq_iff_eq] at h
      obtain ⟨rfl, rfl⟩ := h
      exact .declaration (Likeness.runsAlike_declare (by rfl) constant (.same .null))
  | case3 p name namePos constant x q name' namePos' constant' y =>
      simp only [same, Bool.and_eq_true, beq_iff_eq] at h
      obtain ⟨⟨rfl, rfl⟩, hvalue⟩ := h
      exact .initialized hvalue fun v w hvw =>
        Likeness.runsAlike_declare (by rfl) constant hvw
  | case4 p b x xs q b' y ys =>
      simp only [same, Bool.and_eq_true, beq_iff_eq] at h
      obtain ⟨⟨rfl, hcondition⟩, hblock⟩ := h
      exact .conditional (.same .null) (fun v w hvw => hvw.isTruthy_eq) hcondition
        (forall₂_of_sameAll hblock)
  | case5 p name q name' =>
      rw [same, beq_iff_eq] at h
      subst h
      exact .identifier (Likeness.runsAlike_lookup rfl)
  | case6 p x q y =>
      rw [same] at h
      exact .number (.number (Or.inl h))
  | case7 p text q text' =>
      rw [same, beq_iff_eq] at h
      subst h
      exact .string (.same _)
  | case8 family p symbol pos l r family' q symbol' pos' l' r' =>
      simp only [same, Bool.and_eq_true, beq_iff_eq] at h
      obtain ⟨⟨⟨rfl, rfl⟩, hleft⟩, hright⟩ := h
      cases family with
      | arithmetic =>
          exact .arithmetic hleft hright fun _ _ _ _ hl hr =>
            hl.arithmetic hr pos pos' symbol
      | logical =>
          exact .logical hleft hright fun _ _ _ _ hl hr => hl.logical hr pos pos' symbol
      | untyped => exact .untyped rfl
  | case9 p symbol x q symbol' y =>
      simp only [same, Bool.and_eq_true, beq_iff_eq] at h
      obtain ⟨rfl, hoperand⟩ := h
      exact .unary hoperand fun v w hvw => hvw.unary p q symbol
  | case10 p target x q target' y =>
      rw [same, Bool.and_eq_true] at h
      obtain ⟨htarget, hvalue⟩ := h
      have hidentifier := exists_identifier_of_same htarget
      rcases target.identifier_or_not with ⟨namePos, name, rfl⟩ | hother
      · obtain ⟨namePos', rfl⟩ := (hidentifier name).mp ⟨namePos, rfl⟩
        exact .assignment rfl hvalue fun v w hvw => Likeness.runsAlike_assign rfl rfl hvw
      · have hother' : ∀ namePos name, target' ≠ .identifier namePos name := by
          intro namePos name heq
          obtain ⟨p, heq⟩ := (hidentifier name).mpr ⟨namePos, heq⟩
          exact hother p name heq
        exact .notAssignable hother hother'
          (congrArg Cause.notAssignable (kindName_eq_of_same htarget))
  | case11 p kindName q kindName' =>
      rw [same, beq_iff_eq] at h
      subst h
      exact .unknown rfl
  | case12 =>
      rw [same] at h
      · cases h
      all_goals assumption

end Node

open Evaluation

/--
Trees that are the same up to positions and the sign of zero evaluate to values of the same
type and text or fail for the same cause, and leave matching chains.
-/
theorem same_evaluate_alike
    {n m : Node}
    (h : n.same m = true)
    (c : Chain) :
    (∃ v w c' d', n.evaluate c = .ok v c' ∧ m.evaluate c = .ok w d' ∧
      v.LooksLike w ∧ c'.Related Value.LooksLike d') ∨
    ∃ fault fault' c' d', n.evaluate c = .error fault c' ∧
      m.evaluate c = .error fault' d' ∧
      fault.cause = fault'.cause ∧ c'.Related Value.LooksLike d' := by
  have hends :=
    Likeness.runsAlike_evaluate Node.rootsAlike_of_same n m h c c (.refl .same c)
  have hlooks : ∀ {c' d' : Chain}, c'.Related Value.Matches d' →
      c'.Related Value.LooksLike d' :=
    fun hchain => hchain.mono fun _ _ hvw => hvw.looksLike
  generalize n.evaluate c = r at hends ⊢
  generalize m.evaluate c = r' at hends ⊢
  cases hends with
  | ok hvalue hchain =>
      exact Or.inl ⟨_, _, _, _, rfl, rfl, hvalue.looksLike, hlooks hchain⟩
  | error hcause hchain => exact Or.inr ⟨_, _, _, _, rfl, rfl, hcause, hlooks hchain⟩
  | excusedLeft h => exact h.elim
  | excusedRight h => exact h.elim

/--
Two trees differ in their positions and in the sign of a zero, which is joined to a string
and divided by in both.
-/
theorem same_evaluate_alike_zeros :
    ∃ (n m : Node) (c' d' : Chain),
      n.same m = true ∧
      n.evaluate (.single []) = .error ⟨.divisionByZero, .start⟩ c' ∧
      m.evaluate (.single []) = .error ⟨.divisionByZero, .unknown⟩ d' ∧
      c'.lookup "z" = .ok (.number 0) ∧ d'.lookup "z" = .ok (.number (-0)) ∧
      c'.lookup "s" = .ok (.string "n=0") ∧ d'.lookup "s" = .ok (.string "n=0") ∧
      c'.Related Value.LooksLike d' := by
  let tree (p : Pos) (x : Float) : Node := .program .unknown
    [.declaration p "z" p false (some (.number p x)),
      .declaration p "s" p false
        (some (.operation .arithmetic p "+" p (.string p "n=") (.identifier p "z"))),
      .operation .arithmetic p "/" p (.identifier p "z") (.identifier p "z")]
  have hsame : (tree .start 0).same (tree .unknown (-0)) = true := by
    decide +kernel
  have hrun : ∀ p x, Decimal.display x = "0" → (x == 0) = true →
      (tree p x).evaluate (.single []) =
      .error ⟨.divisionByZero, p⟩
        (.single [("z", ⟨.number x, false⟩), ("s", ⟨.string "n=0", false⟩)]) := by
    intro p x hdisplay hzero
    have hlookup : ∀ b s, lookup p "z" ⟨("z", b) :: s, []⟩ =
        .ok b.value ⟨("z", b) :: s, []⟩ := fun _ _ => rfl
    have hjoin : Value.arithmetic "+" (.string "n=")
        (.number x) = .ok (.string "n=0") := by
      simp [Value.arithmetic, Value.isString, Value.text, hdisplay]
    have hdivide : Value.arithmetic "/" (.number x) (.number x) =
        .error .divisionByZero := by
      exact if_pos (c := ArithOp.div = .div ∧ (x == 0) = true) ⟨rfl, hzero⟩
    simp [tree, Node.evaluate, evaluateAll, bind, EStateM.bind, pure, EStateM.pure,
      hlookup, hjoin, hdivide, declare, Chain.declare, Chain.single, Scope.find?,
      Ledger.get?, Ledger.put, located, fail, throw, throwThe,
      MonadExceptOf.throw, EStateM.throw]
  have hn := hrun .start 0 (by decide +kernel) (by decide +kernel)
  have hm := hrun .unknown (-0) (by decide +kernel) (by decide +kernel)
  rcases same_evaluate_alike hsame (.single [])
    with ⟨v, w, c', d', hok, _⟩ | ⟨_, _, c', d', hc, hd, _, hlooks⟩
  · rw [hn] at hok
    cases hok
  · rw [hn] at hc
    rw [hm] at hd
    cases hc
    cases hd
    exact ⟨_, _, _, _, hsame, hn, hm, rfl, rfl, rfl, rfl, hlooks⟩

end LetLang
