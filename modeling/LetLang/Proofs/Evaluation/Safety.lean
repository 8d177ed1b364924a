import LetLang.Proofs.Evaluation.Failure
import LetLang.Proofs.Evaluation.Machine
import LetLang.Proofs.Evaluation.Placement

/-!
# Safety of evaluation

Evaluation is written once more on the machine whose operations can break down. By
`Checked.evaluate_eq` no tree breaks any of them in any chain of scopes, and what comes out
is what `Node.evaluate` gives. A tree that was read from a text fails for eight reasons
only, and none of them is internal.
-/

namespace LetLang
namespace Checked

/-- A computation on the machine that reads and changes a chain of scopes. -/
abbrev Process := EStateM (Stop Fault) Chain

/-- Gives a failure its place. A breakdown has none. -/
def stopAt (pos : Pos) : Stop Cause → Stop Fault
  | .trap t => .trap t
  | .fault cause => .fault ⟨cause, pos⟩

/-- The answer of an operation, whose failure is found at a position. -/
def located (pos : Pos) : Except (Stop Cause) Value → Process Value
  | .ok v => pure v
  | .error stop => throw (stopAt pos stop)

/-- The binding of a name, taken from the scope that was found to have it. -/
def find (c : Chain) (name : String) : Except (Stop Cause) Binding :=
  match c.resolve name with
  | .error cause => refuse cause
  | .ok depth => do
    let s ← lift (Machine.item c.scopes depth)
    lift (Machine.entry s name)

/-- Binds a name in the innermost scope, in which it must be new. -/
def bound (c : Chain) (name : String) (v : Value) (constant : Bool) :
    Except (Stop Cause) Chain :=
  if name ∈ Ledger.keys c.inner then
    refuse (.alreadyDeclared name)
  else
    .ok { c with inner := Ledger.put name ⟨v, constant⟩ c.inner }

/-- Gives a name a new value where it is bound. -/
def rebound (c : Chain) (name : String) (v : Value) : Except (Stop Cause) Chain := do
  let b ← find c name
  if b.constant then refuse (.constantName name) else .ok (c.set name v)

def lookup (pos : Pos) (name : String) : Process Value := fun c =>
  match find c name with
  | .ok b => .ok b.value c
  | .error stop => .error (stopAt pos stop) c

def declare (pos : Pos) (name : String) (constant : Bool)
    (v : Value) : Process Value := fun c =>
  match bound c name v constant with
  | .ok c' => .ok v c'
  | .error stop => .error (stopAt pos stop) c

def assign (pos : Pos) (name : String) (v : Value) : Process Value := fun c =>
  match rebound c name v with
  | .ok c' => .ok v c'
  | .error stop => .error (stopAt pos stop) c

mutual

/-- The value of a tree, computed on the machine. -/
def evaluate : Node → Process Value
  | .program _ body => evaluateAll .null body
  | .declaration _ name namePos constant none => declare namePos name constant .null
  | .declaration _ name namePos constant (some value) => do
    let v ← evaluate value
    declare namePos name constant v
  | .conditional _ branch condition block => do
    let v ← evaluate condition
    if branch.isTaken v.isTruthy then
      let _ ← evaluateAll .null block
      pure .null
    else
      pure .null
  | .identifier pos name => lookup pos name
  | .number _ x => pure (.number x)
  | .string _ text => pure (.string text)
  | .operation .arithmetic _ operator operatorPos left right => do
    let l ← evaluate left
    let r ← evaluate right
    located operatorPos (arithmetic operator l r)
  | .operation .logical _ operator operatorPos left right => do
    let l ← evaluate left
    let r ← evaluate right
    located operatorPos (logical operator l r)
  | .operation .untyped _ _ _ _ _ =>
      located .unknown (refuse (.notEvaluable Family.untyped.kindName))
  | .unary pos operator operand => do
    let v ← evaluate operand
    located pos (unary operator v)
  | .assignment _ (.identifier pos name) value =>
    if name ∈ Scope.reservedNames then
      located pos (refuse (.reservedName name))
    else do
      let v ← evaluate value
      assign pos name v
  | .assignment _ target _ => located target.pos (refuse (.notAssignable target.kindName))
  | .unknown _ kindName => located .unknown (refuse (.notEvaluable kindName))

/-- Evaluates trees in order and gives the value of the last one, or `last` if there
is none. -/
def evaluateAll (last : Value) : List Node → Process Value
  | [] => pure last
  | n :: ns => do
    let v ← evaluate n
    evaluateAll v ns

end

/-- A computation of the language as one that never breaks down. -/
def embed {α : Type} (m : Evaluation α) : Process α := fun c =>
  match m c with
  | .ok a c' => .ok a c'
  | .error fault c' => .error (.fault fault) c'

theorem embed_pure
    {α : Type} (a : α) :
    embed (pure a) = pure a := by
  rfl

theorem embed_bind
    {α β : Type} (m : Evaluation α) (g : α → Evaluation β) :
    embed (m >>= g) = embed m >>= fun a => embed (g a) := by
  funext c
  simp only [embed, bind, EStateM.bind]
  cases m c with
  | ok a c' => rfl
  | error fault c' => rfl

theorem located_answer
    (pos : Pos) (r : Except Cause Value) :
    located pos (answer r) = embed (Evaluation.located pos r) := by
  cases r <;> rfl

theorem located_refuse
    (pos : Pos) {cause : Cause}
    (h : cause.message.all Message.isPlain = true) :
    located pos (refuse cause) = embed (Evaluation.fail pos cause) := by
  rw [refuse_eq h]
  rfl

theorem mem_keys_iff
    {α : Type} (key : String) (l : Ledger String α) :
    key ∈ Ledger.keys l ↔ (Ledger.get? key l).isSome = true := by
  induction l with
  | nil => simp [Ledger.keys]
  | cons head rest ih =>
      rcases head with ⟨k, a⟩
      by_cases hk : k = key
      · simp [Ledger.keys, Ledger.get?, hk]
      · have hne : key ≠ k := fun h => hk h.symm
        simpa [Ledger.keys, Ledger.get?, hk, hne] using ih

/-- Either no scope binds the name, or the first that does is at the depth that
is found. -/
theorem depthIn?_cases
    (name : String) (ss : List Scope) :
    (Chain.depthIn? name ss = none ∧ Chain.findIn? name ss = none) ∨
      ∃ depth s b, Chain.depthIn? name ss = some depth ∧
        ss[depth]? = some s ∧ s.find? name = some b ∧
        Chain.findIn? name ss = some b := by
  induction ss with
  | nil => exact Or.inl ⟨rfl, rfl⟩
  | cons s ss ih =>
      cases hs : s.find? name with
      | some b =>
          refine Or.inr ⟨0, s, b, ?_, rfl, hs, ?_⟩
          · simp [Chain.depthIn?, hs]
          · simp [Chain.findIn?, hs]
      | none =>
          rcases ih with ⟨hdepth, hfind⟩ | ⟨depth, s', b, hdepth, hitem, hb, hfind⟩
          · refine Or.inl ⟨?_, ?_⟩
            · simp [Chain.depthIn?, hs, hdepth]
            · simp [Chain.findIn?, hs, hfind]
          · refine Or.inr ⟨depth + 1, s', b, ?_, hitem, hb, ?_⟩
            · simp [Chain.depthIn?, hs, hdepth]
            · simp [Chain.findIn?, hs, hfind]

theorem find_cases
    (c : Chain) (name : String) :
    (find c name = .error (.fault (.notDeclared name)) ∧
      Chain.findIn? name c.scopes = none) ∨
      ∃ b, find c name = .ok b ∧ Chain.findIn? name c.scopes = some b := by
  rcases depthIn?_cases name c.scopes
    with ⟨hdepth, hfind⟩ | ⟨depth, s, b, hdepth, hitem, hb, hfind⟩
  · refine Or.inl ⟨?_, hfind⟩
    simp only [find, Chain.resolve, hdepth]
    exact refuse_eq (Cause.isPlain_of_ne (by simp))
  · refine Or.inr ⟨b, ?_, hfind⟩
    have hentry : Machine.entry s name = .ok b := by
      unfold Machine.entry
      rw [show Ledger.get? name s = some b from hb]
    simp only [find, Chain.resolve, hdepth, Machine.item, hitem, lift, bind,
      Except.bind, hentry]

theorem lookup_eq
    (pos : Pos) (name : String) :
    lookup pos name = embed (Evaluation.lookup pos name) := by
  funext c
  rcases find_cases c name with ⟨hfind, hnone⟩ | ⟨b, hfind, hsome⟩
  · simp only [lookup, embed, Evaluation.lookup, Chain.lookup, hfind, hnone, stopAt]
  · simp only [lookup, embed, Evaluation.lookup, Chain.lookup, hfind, hsome]

theorem declare_eq
    (pos : Pos) (name : String) (constant : Bool) (v : Value) :
    declare pos name constant v = embed (Evaluation.declare pos name constant v) := by
  funext c
  have hkeys := mem_keys_iff name c.inner
  cases hname : c.inner.find? name with
  | some b =>
      rw [show Ledger.get? name c.inner = some b from hname] at hkeys
      have hbound : bound c name v constant = .error (.fault (.alreadyDeclared name)) := by
        rw [bound, if_pos (hkeys.mpr rfl)]
        exact refuse_eq (Cause.isPlain_of_ne (by simp))
      simp only [declare, embed, Evaluation.declare, Chain.declare, hname, hbound, stopAt]
  | none =>
      rw [show Ledger.get? name c.inner = none from hname] at hkeys
      have hnew : name ∉ Ledger.keys c.inner :=
        fun hmem => absurd (hkeys.mp hmem) (by decide)
      simp only [declare, embed, Evaluation.declare, Chain.declare, hname,
        bound, if_neg hnew]

theorem assign_eq
    (pos : Pos) (name : String) (v : Value) :
    assign pos name v = embed (Evaluation.assign pos name v) := by
  funext c
  rcases find_cases c name with ⟨hfind, hnone⟩ | ⟨b, hfind, hsome⟩
  · have hrebound : rebound c name v = .error (.fault (.notDeclared name)) := by
      rw [rebound, hfind]
      rfl
    simp only [assign, embed, Evaluation.assign, Chain.assign, hrebound, hnone, stopAt]
  · have hrebound : rebound c name v = if b.constant then refuse (.constantName name)
        else .ok (c.set name v) := by
      rw [rebound, hfind]
      rfl
    by_cases hconstant : b.constant = true
    · rw [if_pos hconstant] at hrebound
      replace hrebound := hrebound.trans (refuse_eq (Cause.isPlain_of_ne (by simp)))
      simp only [assign, embed, Evaluation.assign, Chain.assign, hrebound, hsome,
        if_pos hconstant, stopAt]
    · rw [if_neg hconstant] at hrebound
      simp only [assign, embed, Evaluation.assign, Chain.assign, hrebound, hsome,
        if_neg hconstant]

theorem evaluate_assignment_of_not_identifier
    (pos : Pos) {target : Node} (value : Node)
    (h : ∀ p name, target ≠ .identifier p name) :
    evaluate (.assignment pos target value) =
      located target.pos (refuse (.notAssignable target.kindName)) := by
  cases target with
  | identifier p name => exact absurd rfl (h p name)
  | _ => rw [evaluate]; exact fun _ _ heq => by cases heq

mutual

/-- No tree breaks an operation of the machine in any chain of scopes. -/
theorem evaluate_eq :
    (n : Node) → evaluate n = embed n.evaluate
  | .program pos body => by
      have hbody := evaluateAll_eq .null body
      rw [evaluate, Node.evaluate, hbody]
  | .declaration pos name namePos constant none => by
      rw [evaluate, Node.evaluate, declare_eq]
  | .declaration pos name namePos constant (some value) => by
      have hvalue := evaluate_eq value
      simp only [evaluate, Node.evaluate, embed_bind, hvalue, declare_eq]
  | .conditional pos branch condition block => by
      have hcondition := evaluate_eq condition
      have hblock := evaluateAll_eq .null block
      simp only [evaluate, Node.evaluate, embed_bind, hcondition, hblock]
      congr 1
      funext v
      split
      · simp only [embed_bind, embed_pure]
      · simp only [embed_pure]
  | .identifier pos name => by
      rw [evaluate, Node.evaluate, lookup_eq]
  | .number pos x => by
      rw [evaluate, Node.evaluate, embed_pure]
  | .string pos text => by
      rw [evaluate, Node.evaluate, embed_pure]
  | .operation .arithmetic pos operator operatorPos left right => by
      have hleft := evaluate_eq left
      have hright := evaluate_eq right
      simp only [evaluate, Node.evaluate, embed_bind, hleft, hright,
        arithmetic_eq, located_answer]
  | .operation .logical pos operator operatorPos left right => by
      have hleft := evaluate_eq left
      have hright := evaluate_eq right
      simp only [evaluate, Node.evaluate, embed_bind, hleft, hright,
        logical_eq, located_answer]
  | .operation .untyped pos operator operatorPos left right => by
      rw [evaluate, Node.evaluate]
      exact located_refuse _ (Cause.isPlain_of_ne (by simp))
  | .unary pos operator operand => by
      have hoperand := evaluate_eq operand
      simp only [evaluate, Node.evaluate, embed_bind, hoperand, unary_eq, located_answer]
  | .assignment pos target value => by
      have hvalue := evaluate_eq value
      rcases target.identifier_or_not with ⟨p, name, rfl⟩ | htarget
      · rw [evaluate, Node.evaluate]
        split
        · exact located_refuse p (Cause.isPlain_of_ne (by simp))
        · simp only [embed_bind, hvalue, assign_eq]
      · rw [evaluate_assignment_of_not_identifier pos value htarget,
          Node.evaluate_assignment_of_not_identifier pos value htarget]
        exact located_refuse _ (Cause.isPlain_of_ne (by simp))
  | .unknown pos kindName => by
      rw [evaluate, Node.evaluate]
      exact located_refuse _ (Cause.isPlain_of_ne (by simp))

theorem evaluateAll_eq (last : Value) :
    (ns : List Node) → evaluateAll last ns = embed (LetLang.evaluateAll last ns)
  | [] => by
      rw [evaluateAll, LetLang.evaluateAll, embed_pure]
  | n :: ns => by
      have hn := evaluate_eq n
      have hns := fun v => evaluateAll_eq v ns
      simp only [evaluateAll, LetLang.evaluateAll, embed_bind, hn, hns]

end

end Checked

namespace Cause

/-- The causes for which a program that was read from a text can fail. -/
def IsOrdinary : Cause → Prop
  | alreadyDeclared _ | notDeclared _ | reservedName _ | constantName _ | unaryOperand _ _
  | mismatch _ _ _ | divisionByZero | notAssignable _ => True
  | _ => False

theorem IsOrdinary.kind_mem
    {c : Cause}
    (h : c.IsOrdinary) :
    c.kind ∈ [Kind.unknown, .duplicate, .reserved, .constant, .operand,
      .target, .zeroDivision] := by
  cases c <;> first | exact h.elim | simp [kind]

theorem IsOrdinary.isPlain
    {c : Cause}
    (h : c.IsOrdinary) :
    c.message.all Message.isPlain = true := by
  refine isPlain_of_ne ?_
  rintro keyword found rfl
  exact h

end Cause

namespace Value

theorem isOrdinary_of_unary_error
    {symbol : String} {v : Value} {cause : Cause}
    (h : unary symbol v = .error cause) :
    cause.IsOrdinary := by
  unfold unary at h
  split at h
  · cases h
  · cases h
  · cases h
    trivial

theorem isOrdinary_of_arithmetic_error
    {op : ArithOp} {l r : Value} {cause : Cause}
    (h : arithmetic op.symbol l r = .error cause) :
    cause.IsOrdinary := by
  unfold arithmetic at h
  split at h
  · split at h
    · cases h
    · cases h
      trivial
  · split at h
    · -- the symbol is that of an operator, so only the test for a zero divisor is left
      rw [numeric, ArithOp.ofSymbol?_symbol] at h
      simp only at h
      split at h
      · cases h
        trivial
      · cases h
    · cases h

theorem isOrdinary_of_logical_error
    {op : LogicOp} {l r : Value} {cause : Cause}
    (h : logical op.symbol l r = .error cause) :
    cause.IsOrdinary := by
  unfold logical at h
  split at h
  · split at h
    · cases h
    · split at h
      · cases h
      · cases h
        trivial
  · split at h
    · rw [LogicOp.ofSymbol?_symbol] at h
      cases h
    · cases h

end Value

namespace Evaluation

/-- The computation fails for ordinary causes only, whatever the chain. -/
def IsSafe {α : Type} (m : Evaluation α) : Prop :=
  ∀ c fault c', m c = .error fault c' → fault.cause.IsOrdinary

theorem isSafe_pure
    {α : Type} (a : α) :
    IsSafe (pure a) := by
  exact failsOnly_pure a

theorem IsSafe.bind
    {α β : Type} {m : Evaluation α} {g : α → Evaluation β}
    (hm : IsSafe m)
    (hg : ∀ a, IsSafe (g a)) :
    IsSafe (m >>= g) := by
  exact FailsOnly.bind hm hg

theorem isSafe_fail
    {α : Type} (pos : Pos) {cause : Cause}
    (h : cause.IsOrdinary) :
    IsSafe (fail pos cause : Evaluation α) := by
  exact failsOnly_fail (P := fun fault => fault.cause.IsOrdinary) h

theorem isSafe_located
    (pos : Pos) {answer : Except Cause Value}
    (h : ∀ cause, answer = .error cause → cause.IsOrdinary) :
    IsSafe (located pos answer) := by
  exact failsOnly_located (P := fun fault => fault.cause.IsOrdinary) h

theorem isSafe_lookup
    (pos : Pos) (name : String) :
    IsSafe (lookup pos name) := by
  exact failsOnly_lookup (P := fun fault => fault.cause.IsOrdinary) trivial

theorem isSafe_declare
    (pos : Pos) (name : String) (constant : Bool) (v : Value) :
    IsSafe (declare pos name constant v) := by
  exact failsOnly_declare (P := fun fault => fault.cause.IsOrdinary) trivial

theorem isSafe_assign
    (pos : Pos) (name : String) (v : Value) :
    IsSafe (assign pos name v) := by
  exact failsOnly_assign (P := fun fault => fault.cause.IsOrdinary) trivial trivial

end Evaluation

open Evaluation

namespace Node

theorem isSafe_evaluate :
    (n : Node) → n.IsExpression → IsSafe n.evaluate
  | .identifier pos name, _ => by
      rw [evaluate]
      exact isSafe_lookup pos name
  | .number pos x, _ => by
      rw [evaluate]
      exact isSafe_pure _
  | .string pos text, _ => by
      rw [evaluate]
      exact isSafe_pure _
  | .operation family pos symbol symbolPos left right, h => by
      obtain ⟨⟨op, rfl, rfl⟩, hleft, hright⟩ := h
      have hl := isSafe_evaluate left hleft
      have hr := isSafe_evaluate right hright
      cases op with
      | arith op =>
          simp only [BinaryOp.family, BinaryOp.symbol, evaluate]
          refine hl.bind fun l => hr.bind fun r => isSafe_located symbolPos ?_
          intro cause herror
          exact Value.isOrdinary_of_arithmetic_error herror
      | logic op =>
          simp only [BinaryOp.family, BinaryOp.symbol, evaluate]
          refine hl.bind fun l => hr.bind fun r => isSafe_located symbolPos ?_
          intro cause herror
          exact Value.isOrdinary_of_logical_error herror
  | .unary pos symbol operand, h => by
      have hoperand := isSafe_evaluate operand h.2
      rw [evaluate]
      refine hoperand.bind fun v => isSafe_located pos ?_
      intro cause herror
      exact Value.isOrdinary_of_unary_error herror
  | .assignment pos target value, h => by
      have hvalue := isSafe_evaluate value h.2
      rcases target.identifier_or_not with ⟨p, name, rfl⟩ | htarget
      · rw [evaluate]
        split
        · exact isSafe_fail p trivial
        · exact hvalue.bind fun v => isSafe_assign p name v
      · rw [evaluate_assignment_of_not_identifier pos value htarget]
        exact isSafe_fail _ trivial

theorem isSafe_evaluate_of_isStatement
    {n : Node}
    (h : n.IsStatement) :
    IsSafe n.evaluate := by
  cases n with
  | declaration pos name namePos constant value =>
      cases value with
      | none =>
          rw [evaluate]
          exact isSafe_declare namePos name constant .null
      | some value =>
          rw [evaluate]
          exact (isSafe_evaluate value h.2).bind fun v =>
            isSafe_declare namePos name constant v
  | _ => exact isSafe_evaluate _ h

end Node

theorem isSafe_evaluateAll
    (last : Value) {ns : List Node}
    (h : ∀ n ∈ ns, n.IsStatement) :
    IsSafe (evaluateAll last ns) := by
  exact failsOnly_evaluateAll last fun n hn => Node.isSafe_evaluate_of_isStatement (h n hn)

theorem number_of_mem_tokens
    {source : String} {stream : TokenStream} {t : Token} {digits : String}
    (htokenize : tokenize source = .ok stream)
    (ht : t ∈ stream.tokens)
    (hdigits : t.lexeme = .number digits) :
    Machine.number digits.toList = .ok (Decimal.read digits.toList) := by
  obtain ⟨w, hspelled⟩ := TokenStream.spelled_of_mem_read htokenize ht
  rw [hdigits] at hspelled
  obtain ⟨rfl, hnumeral⟩ := hspelled
  exact Machine.number_of_isNumeral hnumeral

/--
A program that was read from a text has a value in every chain of scopes, or fails with a
fault of the seven kinds. The machine does not break down.
-/
theorem evaluate_safe_of_parse
    {source : String} {program : Node}
    (hparse : parse source = .ok program)
    (c : Chain) :
    (∀ stream, tokenize source = .ok stream →
      ∀ t ∈ stream.tokens, ∀ digits, t.lexeme = .number digits →
      Machine.number digits.toList = .ok (Decimal.read digits.toList)) ∧
    ((∃ v c', Checked.evaluate program c = .ok v c' ∧ program.evaluate c = .ok v c') ∨
      ∃ fault c', Checked.evaluate program c = .error (.fault fault) c' ∧
        program.evaluate c = .error fault c' ∧
        fault.cause.kind ∈ [Kind.unknown, .duplicate, .reserved, .constant,
          .operand, .target, .zeroDivision] ∧
        (∀ symbol, fault.cause ≠ .notArithmetic symbol) ∧
        (∀ symbol, fault.cause ≠ .notLogical symbol) ∧
        ∃ m, Machine.format fault.cause.snippets [] fault.cause.template.toList = .ok m ∧
          ∀ style, m.render style = fault.cause.message.render style) := by
  refine ⟨?_, ?_⟩
  · intro stream htokenize t ht digits hdigits
    exact number_of_mem_tokens htokenize ht hdigits
  have hsafe : IsSafe program.evaluate := by
    have hprogram := isProgram_of_parse hparse
    cases program with
    | program pos body =>
        rw [Node.evaluate]
        exact isSafe_evaluateAll .null hprogram
    | _ => exact hprogram.elim
  have hchecked : Checked.evaluate program c = Checked.embed program.evaluate c := by
    rw [Checked.evaluate_eq]
  cases hrun : program.evaluate c with
  | ok v c' =>
      refine Or.inl ⟨v, c', ?_, rfl⟩
      rw [hchecked, Checked.embed, hrun]
  | error fault c' =>
      have hordinary := hsafe c fault c' hrun
      refine Or.inr ⟨fault, c', ?_, rfl, hordinary.kind_mem, ?_, ?_, ?_⟩
      · rw [hchecked, Checked.embed, hrun]
      · intro symbol heq
        rw [heq] at hordinary
        exact hordinary
      · intro symbol heq
        rw [heq] at hordinary
        exact hordinary
      · exact Cause.exists_format_template hordinary.isPlain

/-- Strings cannot be subtracted, on the machine as in the language, also if there are
braces in them. -/
theorem evaluate_safe_of_parse_brace :
    ∃ program c', parse "\"\x7b\" - version" = .ok program ∧
      Checked.evaluate program (Chain.initial "\x7b\x7d") =
        .error (.fault ⟨.mismatch "-" "string" "string", ⟨1, 5⟩⟩) c' := by
  have htokens : tokenize "\"\x7b\" - version" =
      .ok ⟨[⟨.string "\x7b", ⟨1, 1⟩⟩, ⟨.operator (.binary (.arith .sub)), ⟨1, 5⟩⟩,
        ⟨.identifier "version", ⟨1, 7⟩⟩], ⟨1, 14⟩⟩ := by
    decide +kernel
  have hparse : parse "\"\x7b\" - version" = .ok (.program .unknown
      [.operation .arithmetic ⟨1, 1⟩ "-" ⟨1, 5⟩ (.string ⟨1, 1⟩ "\x7b")
        (.identifier ⟨1, 7⟩ "version")]) :=
    (parse_of_tokenize htokens).trans rfl
  rcases (evaluate_safe_of_parse hparse (Chain.initial "\x7b\x7d")).2 with
    ⟨v, c', _, hvalue⟩ | ⟨fault, c', hchecked, hfault, _⟩
  · cases hvalue
  · cases hfault
    exact ⟨_, _, hparse, hchecked⟩

end LetLang
