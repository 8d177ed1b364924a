import LetLang.Proofs.Evaluation.Recording
import LetLang.Proofs.Evaluation.Types

/-!
# The order of effects

The nodes of a tree are completed in post-order from left to right: the parts of a node
before the node, both operands of every operator, but never the target of an assignment. A
course lists nodes that have been completed, with their values. If evaluation succeeds, its
course is the whole tree in post-order, and the chain is changed by the declarations and
assignments of that list, one after the other. If it fails, the course breaks off at the
node that fails. Everything before that node has been completed, and so have its own parts,
unless it is refused before they are looked at; nothing else has happened to the chain.
-/

namespace LetLang
namespace Node

mutual

/-- The nodes of the tree in the order in which they are completed, parts first. The target
of an assignment is not among them. -/
def postorder : Node → List Node
  | n@(program _ body) => postorderAll body ++ [n]
  | n@(declaration _ _ _ _ none) => [n]
  | n@(declaration _ _ _ _ (some value)) => postorder value ++ [n]
  | n@(conditional _ _ condition block) => postorder condition ++ postorderAll block ++ [n]
  | n@(identifier _ _) => [n]
  | n@(number _ _) => [n]
  | n@(string _ _) => [n]
  | n@(operation _ _ _ _ left right) => postorder left ++ postorder right ++ [n]
  | n@(unary _ _ operand) => postorder operand ++ [n]
  | n@(assignment _ _ value) => postorder value ++ [n]
  | n@(unknown _ _) => [n]

/-- The nodes of the trees in the order in which they are completed, one tree after
the other. -/
def postorderAll : List Node → List Node
  | [] => []
  | n :: ns => postorder n ++ postorderAll ns

end

/-- The node is a declaration or an assignment. -/
def isChange : Node → Bool
  | declaration _ _ _ _ _ => true
  | assignment _ _ _ => true
  | _ => false

/-- The declarations and assignments of the tree in post-order. -/
def operations (n : Node) : List Node :=
  n.postorder.filter isChange

/-- The expression whose value the node declares or assigns. -/
def expression? : Node → Option Node
  | declaration _ _ _ _ value => value
  | assignment _ _ value => some value
  | _ => none

/-- The change that the node makes to a chain with the value. -/
def change? : Node → Value → Option Change
  | declaration _ name _ constant _, v => some (.declared name v constant)
  | assignment _ (identifier _ name) _, v => some (.assigned name v)
  | _, _ => none

/-- The node is refused before any of its parts is evaluated. -/
def isRefusedAtOnce : Node → Bool
  | operation .untyped _ _ _ _ _ => true
  | assignment _ (identifier _ name) _ => decide (name ∈ Scope.reservedNames)
  | assignment _ _ _ => true
  | unknown _ _ => true
  | _ => false

/-- What is completed below the node before it is its own turn. -/
def preliminaries (n : Node) : List Node :=
  if n.isRefusedAtOnce then [] else n.postorder.dropLast

end Node

/-- A node that has been completed, and its value. -/
structure Evaluated where
  node : Node
  value : Value

/-- The declarations and assignments among the nodes that have been completed. -/
def operationsOf (course : List Evaluated) : List Evaluated :=
  course.filter (·.node.isChange)

/-- The nodes are completed one after the other, and lead from one chain to another. -/
inductive Course : Chain → List Evaluated → Chain → Prop
  | nil (c : Chain) :
      Course c [] c
  | append
      {c c₁ c₂ : Chain} {first second : List Evaluated} :
      Course c first c₁ →
      Course c₁ second c₂ →
      Course c (first ++ second) c₂
  /-- A node that is no declaration or assignment changes nothing beyond what its parts
  have changed. -/
  | plain
      {c c₁ : Chain} {parts : List Evaluated} {n : Node} {v : Value} :
      Course c parts c₁ →
      parts.map Evaluated.node ++ [n] = n.postorder →
      n.isChange = false →
      n.evaluate c = .ok v c₁ →
      Course c (parts ++ [⟨n, v⟩]) c₁
  /-- A declaration without a value declares null. -/
  | unset
      {c c₁ : Chain} {pos namePos : Pos} {name : String} {constant : Bool} :
      c.declare name .null constant = .ok c₁ →
      Course c [⟨.declaration pos name namePos constant none, .null⟩] c₁
  /-- A declaration or an assignment makes its change with the value of its expression. -/
  | change
      {c c₁ c₂ : Chain} {parts : List Evaluated} {n x : Node}
      {v : Value} {change : Change} :
      Course c parts c₁ →
      parts.map Evaluated.node = x.postorder →
      n.expression? = some x →
      x.evaluate c = .ok v c₁ →
      n.change? v = some change →
      c₁.make change = .ok c₂ →
      Course c (parts ++ [⟨n, v⟩]) c₂

/-- The nodes are completed one after the other up to one that fails. The course is what
has been completed before that node, and then what is completed below it. -/
def BreaksOff (c : Chain) (nodes : List Node) (course : List Evaluated)
    (fault : Fault) (c' : Chain) : Prop :=
  ∃ (earlier below : List Evaluated) (culprit : Node) (later : List Node) (b : Chain),
    course = earlier ++ below ∧
    nodes = earlier.map Evaluated.node ++ culprit.postorder ++ later ∧
    below.map Evaluated.node = culprit.preliminaries ∧
    Course c earlier b ∧ Course b below c' ∧ culprit.evaluate b = .error fault c'

theorem operationsOf_append
    (first second : List Evaluated) :
    operationsOf (first ++ second) = operationsOf first ++ operationsOf second := by
  exact List.filter_append first second

/-- The chain has been changed by the declarations and assignments of the course, and by
nothing else. -/
theorem Course.exists_replays
    {c c' : Chain} {course : List Evaluated}
    (h : Course c course c') :
    ∃ changes,
      List.Forall₂ (fun e change => e.node.change? e.value = some change)
        (operationsOf course) changes ∧
      c.Replays changes c' := by
  induction h with
  | nil c => exact ⟨[], .nil, .nil c⟩
  | append _ _ ihfirst ihsecond =>
      obtain ⟨first, hfirst, hreplays⟩ := ihfirst
      obtain ⟨second, hsecond, hreplays'⟩ := ihsecond
      rw [operationsOf_append]
      exact ⟨first ++ second, List.rel_append hfirst hsecond, hreplays.append hreplays'⟩
  | @plain c c₁ parts n v _ _ hplain _ ih =>
      have hnone : operationsOf [⟨n, v⟩] = [] := by
        simp [operationsOf, hplain]
      rw [operationsOf_append, hnone, List.append_nil]
      exact ih
  | unset hdeclare => exact ⟨[_], .cons rfl .nil, .single hdeclare⟩
  | @change c c₁ c₂ parts n x v change _ _ hexpression _ hchange hmake ih =>
      obtain ⟨changes, hchanges, hreplays⟩ := ih
      have hone : operationsOf [⟨n, v⟩] = [⟨n, v⟩] := by
        cases n <;> simp [Node.expression?] at hexpression <;> rfl
      rw [operationsOf_append, hone]
      exact ⟨changes ++ [change], List.rel_append hchanges (.cons hchange .nil),
        hreplays.append (.single hmake)⟩

namespace BreaksOff

variable {c c₁ c' : Chain} {nodes : List Node} {course : List Evaluated} {fault : Fault}

/-- What comes after the node that fails does not matter. -/
theorem append_right
    (h : BreaksOff c nodes course fault c')
    (more : List Node) :
    BreaksOff c (nodes ++ more) course fault c' := by
  obtain ⟨earlier, below, culprit, later, b, hcourse, hnodes, hrest⟩ := h
  refine ⟨earlier, below, culprit, later ++ more, b, hcourse, ?_, hrest⟩
  rw [hnodes, List.append_assoc _ later]

/-- What has been completed before is part of the course. -/
theorem append_left
    {first : List Evaluated}
    (hfirst : Course c first c₁)
    (h : BreaksOff c₁ nodes course fault c') :
    BreaksOff c (first.map Evaluated.node ++ nodes) (first ++ course) fault c' := by
  obtain ⟨earlier, below, culprit, later, b, rfl, rfl, hbelow, hearlier, hrest⟩ := h
  refine ⟨first ++ earlier, below, culprit, later, b, ?_, ?_, hbelow,
    hfirst.append hearlier, hrest⟩
  · rw [List.append_assoc]
  · rw [List.map_append]
    simp only [List.append_assoc]

/-- The node itself fails, in the chain that its parts have led to. -/
theorem self
    {n : Node} {below : List Evaluated}
    (hbelow : below.map Evaluated.node = n.preliminaries)
    (hcourse : Course c below c')
    (hfails : n.evaluate c = .error fault c') :
    BreaksOff c n.postorder below fault c' := by
  exact ⟨[], below, n, [], c, rfl, by simp, hbelow, .nil c, hcourse, hfails⟩

end BreaksOff

namespace Evaluation

/-- The computation completes the nodes one after the other, and breaks off where
it fails. -/
structure Traces {α : Type} (nodes : List Node) (m : Evaluation α) : Prop where
  ok : ∀ c a c', m c = .ok a c' →
    ∃ course, course.map Evaluated.node = nodes ∧ Course c course c'
  error : ∀ c fault c', m c = .error fault c' → ∃ course, BreaksOff c nodes course fault c'

variable {α β : Type}

theorem traces_pure
    (a : α) :
    Traces [] (pure a) := by
  constructor
  · intro c b c' h
    cases h
    exact ⟨[], rfl, .nil c⟩
  · intro c fault c' h
    cases h

theorem Traces.bind
    {first second : List Node} {m : Evaluation α} {g : α → Evaluation β}
    (hm : Traces first m)
    (hg : ∀ a, Traces second (g a)) :
    Traces (first ++ second) (m >>= g) := by
  constructor
  · intro c b c' h
    cases hrun : m c with
    | error fault c₁ =>
        simp only [Bind.bind, EStateM.bind, hrun] at h
        cases h
    | ok a c₁ =>
        simp only [Bind.bind, EStateM.bind, hrun] at h
        obtain ⟨course, rfl, hcourse⟩ := hm.ok c a c₁ hrun
        obtain ⟨course', rfl, hcourse'⟩ := (hg a).ok c₁ b c' h
        exact ⟨course ++ course', List.map_append, hcourse.append hcourse'⟩
  · intro c fault c' h
    cases hrun : m c with
    | error fault₁ c₁ =>
        simp only [Bind.bind, EStateM.bind, hrun] at h
        cases h
        obtain ⟨course, hbreaks⟩ := hm.error c fault c' hrun
        exact ⟨course, hbreaks.append_right second⟩
    | ok a c₁ =>
        simp only [Bind.bind, EStateM.bind, hrun] at h
        obtain ⟨course, rfl, hcourse⟩ := hm.ok c a c₁ hrun
        obtain ⟨course', hbreaks⟩ := (hg a).error c₁ fault c' h
        exact ⟨course ++ course', .append_left hcourse hbreaks⟩

/-- The computation leaves the chain as it is. -/
def IsIdle (m : Evaluation α) : Prop :=
  ∀ c, leaves (m c) = c

/-- If the computation fails, it leaves the chain as it is. -/
def FailsIdly (m : Evaluation α) : Prop :=
  ∀ c fault c', m c = .error fault c' → c' = c

theorem IsIdle.failsIdly
    {m : Evaluation α}
    (h : IsIdle m) :
    FailsIdly m := by
  intro c fault c' hrun
  have hleaves := h c
  rw [hrun] at hleaves
  exact hleaves

theorem isIdle_pure
    (a : α) :
    IsIdle (pure a) := by
  intro c
  rfl

theorem isIdle_located
    (pos : Pos) (answer : Except Cause Value) :
    IsIdle (located pos answer) := by
  intro c
  cases answer <;> rfl

theorem isIdle_lookup
    (pos : Pos) (name : String) :
    IsIdle (lookup pos name) := by
  intro c
  unfold lookup
  cases c.lookup name <;> rfl

/-- Makes a change and gives its value. -/
def make (pos : Pos) (change : Change) (v : Value) : Evaluation Value := fun c =>
  match c.make change with
  | .ok c' => .ok v c'
  | .error cause => .error ⟨cause, pos⟩ c

theorem make_eq_ok
    {pos : Pos} {change : Change} {v w : Value} {c c' : Chain}
    (h : make pos change v c = .ok w c') :
    w = v ∧ c.make change = .ok c' := by
  unfold make at h
  split at h
  · rename_i heq
    cases h
    exact ⟨rfl, heq⟩
  · cases h

theorem failsIdly_make
    (pos : Pos) (change : Change) (v : Value) :
    FailsIdly (make pos change v) := by
  intro c fault c' h
  unfold make at h
  split at h <;> cases h
  rfl

theorem declare_eq_make
    (pos : Pos) (name : String) (constant : Bool) (v : Value) :
    declare pos name constant v = make pos (.declared name v constant) v := by
  rfl

theorem assign_eq_make
    (pos : Pos) (name : String) (v : Value) :
    assign pos name v = make pos (.assigned name v) v := by
  rfl

end Evaluation

open Evaluation

namespace Node

variable {n : Node}

/-- A node that is refused before its parts are looked at. -/
theorem traces_of_refused
    (hrefused : n.isRefusedAtOnce = true)
    (hfails : ∀ c, ∃ fault, n.evaluate c = .error fault c) :
    Traces n.postorder n.evaluate := by
  have hnone : n.preliminaries = [] := by
    rw [preliminaries, hrefused]
    rfl
  constructor
  · intro c v c' h
    obtain ⟨fault, hfault⟩ := hfails c
    rw [hfault] at h
    cases h
  · intro c fault c' h
    obtain ⟨fault', hfault⟩ := hfails c
    rw [hfault] at h
    cases h
    exact ⟨[], .self hnone.symm (.nil c) hfault⟩

/-- A node that evaluates its parts first, and is completed or fails in the chain that they
lead to. -/
theorem traces_of_parts
    {α : Type} {parts : List Node} {m : Evaluation α} {g : α → Evaluation Value}
    (hrefused : n.isRefusedAtOnce = false)
    (hpostorder : n.postorder = parts ++ [n])
    (hevaluate : n.evaluate = m >>= g)
    (hm : Traces parts m)
    (hcompletes : ∀ c course a c₁ v c₂, Course c course c₁ →
      course.map Evaluated.node = parts →
      m c = .ok a c₁ → g a c₁ = .ok v c₂ → Course c (course ++ [⟨n, v⟩]) c₂)
    (hfails : ∀ a, FailsIdly (g a)) :
    Traces n.postorder n.evaluate := by
  have hprelim : n.preliminaries = parts := by
    rw [preliminaries, hrefused, hpostorder]
    simp
  constructor
  · intro c v c' h
    rw [hevaluate] at h
    cases hrun : m c with
    | error fault c₁ =>
        simp only [Bind.bind, EStateM.bind, hrun] at h
        cases h
    | ok a c₁ =>
        simp only [Bind.bind, EStateM.bind, hrun] at h
        obtain ⟨course, hnodes, hcourse⟩ := hm.ok c a c₁ hrun
        refine ⟨course ++ [⟨n, v⟩], ?_,
          hcompletes c course a c₁ v c' hcourse hnodes hrun h⟩
        rw [hpostorder, List.map_append, hnodes]
        rfl
  · intro c fault c' h
    have hfault := h
    rw [hevaluate] at h
    cases hrun : m c with
    | error fault₁ c₁ =>
        simp only [Bind.bind, EStateM.bind, hrun] at h
        cases h
        obtain ⟨course, hbreaks⟩ := hm.error c fault c' hrun
        rw [hpostorder]
        exact ⟨course, hbreaks.append_right [n]⟩
    | ok a c₁ =>
        simp only [Bind.bind, EStateM.bind, hrun] at h
        obtain rfl := hfails a c₁ fault c' h
        obtain ⟨course, hnodes, hcourse⟩ := hm.ok c a c' hrun
        exact ⟨course, .self (hnodes.trans hprelim.symm) hcourse hfault⟩

/-- A node that changes nothing itself. -/
theorem traces_plain
    {α : Type} {parts : List Node} {m : Evaluation α} {g : α → Evaluation Value}
    (hrefused : n.isRefusedAtOnce = false)
    (hplain : n.isChange = false)
    (hpostorder : n.postorder = parts ++ [n])
    (hevaluate : n.evaluate = m >>= g)
    (hm : Traces parts m)
    (hg : ∀ a, IsIdle (g a)) :
    Traces n.postorder n.evaluate := by
  refine traces_of_parts hrefused hpostorder hevaluate hm ?_ fun a => (hg a).failsIdly
  intro c course a c₁ v c₂ hcourse hnodes hrun hstep
  have hidle := hg a c₁
  rw [hstep] at hidle
  obtain rfl : c₂ = c₁ := hidle
  refine hcourse.plain (by rw [hnodes, hpostorder]) hplain ?_
  rw [hevaluate]
  simp only [Bind.bind, EStateM.bind, hrun, hstep]

/-- A node that makes a change with the value of its expression. -/
theorem traces_change
    {x : Node} {pos : Pos} (change : Value → Change)
    (hrefused : n.isRefusedAtOnce = false)
    (hexpression : n.expression? = some x)
    (hpostorder : n.postorder = x.postorder ++ [n])
    (hchange : ∀ v, n.change? v = some (change v))
    (hevaluate : n.evaluate = x.evaluate >>= fun v => make pos (change v) v)
    (hx : Traces x.postorder x.evaluate) :
    Traces n.postorder n.evaluate := by
  refine traces_of_parts hrefused hpostorder hevaluate hx ?_ fun v =>
    failsIdly_make pos (change v) v
  intro c course a c₁ v c₂ hcourse hnodes hrun hstep
  obtain ⟨rfl, hmake⟩ := make_eq_ok hstep
  exact hcourse.change hnodes hexpression hrun (hchange v) hmake

mutual

/-- Evaluation completes the nodes of a tree without conditional blocks in post-order. -/
theorem traces_evaluate :
    (n : Node) → n.isUnconditional = true → Traces n.postorder n.evaluate
  | .program pos body, h => by
      rw [isUnconditional] at h
      have hbody := traces_evaluateAll .null body h
      exact traces_plain (g := pure) rfl rfl (by rw [postorder])
        (by rw [evaluate, bind_pure]) hbody isIdle_pure
  | .declaration pos name namePos constant none, _ => by
      refine traces_of_parts (m := pure ()) (g := fun _ =>
        make namePos (.declared name .null constant) .null) rfl
        (by rw [postorder]; rfl)
          (by rw [evaluate, declare_eq_make, pure_bind]) (traces_pure ()) ?_
        fun _ => failsIdly_make namePos _ _
      intro c course a c₁ v c₂ hcourse hnodes hrun hstep
      cases hrun
      obtain rfl := List.map_eq_nil_iff.mp hnodes
      obtain ⟨rfl, hmake⟩ := make_eq_ok hstep
      exact .unset hmake
  | .declaration pos name namePos constant (some value), h => by
      rw [isUnconditional] at h
      have hvalue := traces_evaluate value h
      have hmake : (declaration pos name namePos constant (some value)).evaluate =
          value.evaluate >>= fun v => make namePos (.declared name v constant) v := by
        simp only [evaluate, declare_eq_make]
      exact traces_change (fun v => .declared name v constant) rfl rfl (by rw [postorder])
        (fun v => rfl) hmake hvalue
  | .conditional _ _ _ _, h => by
      rw [isUnconditional] at h
      cases h
  | .identifier pos name, _ => by
      exact traces_plain (m := pure ()) rfl rfl (by rw [postorder]; rfl)
        (by rw [evaluate, pure_bind])
        (traces_pure ()) fun _ => isIdle_lookup pos name
  | .number pos x, _ => by
      exact traces_plain (m := pure ()) rfl rfl (by rw [postorder]; rfl)
        (by rw [evaluate, pure_bind])
        (traces_pure ()) fun _ => isIdle_pure (.number x)
  | .string pos text, _ => by
      exact traces_plain (m := pure ()) rfl rfl (by rw [postorder]; rfl)
        (by rw [evaluate, pure_bind])
        (traces_pure ()) fun _ => isIdle_pure (.string text)
  | .operation family pos symbol symbolPos left right, h => by
      rw [isUnconditional, Bool.and_eq_true] at h
      have hleft := traces_evaluate left h.1
      have hright := traces_evaluate right h.2
      -- both operands are evaluated before the operator is looked at
      have hoperands : Traces (left.postorder ++ right.postorder)
          (do let l ← left.evaluate; let r ← right.evaluate; pure (l, r)) := by
        refine hleft.bind fun l => ?_
        rw [← List.append_nil right.postorder]
        exact hright.bind fun r => traces_pure (l, r)
      cases family with
      | arithmetic =>
          exact traces_plain rfl rfl (by rw [postorder]) (by simp [evaluate]) hoperands
            fun operands => isIdle_located symbolPos
              (Value.arithmetic symbol operands.1 operands.2)
      | logical =>
          exact traces_plain rfl rfl (by rw [postorder]) (by simp [evaluate]) hoperands
            fun operands => isIdle_located symbolPos
              (Value.logical symbol operands.1 operands.2)
      | untyped => exact traces_of_refused rfl fun c => ⟨_, by rw [evaluate]; rfl⟩
  | .unary pos symbol operand, h => by
      rw [isUnconditional] at h
      have hoperand := traces_evaluate operand h
      exact traces_plain rfl rfl (by rw [postorder]) (by rw [evaluate]) hoperand
        fun v => isIdle_located pos (Value.unary symbol v)
  | .assignment pos target value, h => by
      rw [isUnconditional, Bool.and_eq_true] at h
      have hvalue := traces_evaluate value h.2
      rcases target.identifier_or_not with ⟨p, name, rfl⟩ | htarget
      · by_cases hreserved : name ∈ Scope.reservedNames
        · refine traces_of_refused (decide_eq_true hreserved) fun c =>
            ⟨⟨.reservedName name, p⟩, ?_⟩
          rw [evaluate, if_pos hreserved]
          rfl
        · have hmake : (assignment pos (identifier p name) value).evaluate =
              value.evaluate >>= fun v => make p (.assigned name v) v := by
            simp only [evaluate, if_neg hreserved, assign_eq_make]
          exact traces_change (fun v => .assigned name v)
            (decide_eq_false hreserved) rfl (by rw [postorder])
            (fun v => rfl) hmake hvalue
      · have hrefused : (assignment pos target value).isRefusedAtOnce = true := by
          cases target with
          | identifier p name => exact absurd rfl (htarget p name)
          | _ => rfl
        refine traces_of_refused hrefused fun c =>
          ⟨⟨.notAssignable target.kindName, target.pos⟩, ?_⟩
        rw [evaluate_assignment_of_not_identifier pos value htarget]
        rfl
  | .unknown pos kindName, _ => by
      exact traces_of_refused rfl fun c => ⟨_, by rw [evaluate]; rfl⟩

theorem traces_evaluateAll (last : Value) :
    (ns : List Node) → areUnconditional ns = true →
      Traces (postorderAll ns) (evaluateAll last ns)
  | [], _ => by
      rw [postorderAll, evaluateAll]
      exact traces_pure last
  | n :: ns, h => by
      rw [areUnconditional, Bool.and_eq_true] at h
      have hn := traces_evaluate n h.1
      have hns := fun v => traces_evaluateAll v ns h.2
      rw [postorderAll, evaluateAll]
      exact hn.bind hns

end

theorem preliminaries_isPrefix
    (n : Node) :
    n.preliminaries <+: n.postorder := by
  unfold preliminaries
  split
  · exact List.nil_prefix
  · exact List.dropLast_prefix n.postorder

end Node

/-- What has been completed before a failure is the beginning of what was to
be completed. -/
theorem BreaksOff.isPrefix
    {c c' : Chain} {nodes : List Node} {course : List Evaluated} {fault : Fault}
    (h : BreaksOff c nodes course fault c') :
    course.map Evaluated.node <+: nodes := by
  obtain ⟨earlier, below, culprit, later, b, rfl, rfl, hbelow, _⟩ := h
  rw [List.map_append, hbelow, List.append_assoc]
  exact List.prefix_append_right_inj _ |>.mpr
    (culprit.preliminaries_isPrefix.trans (List.prefix_append _ later))

theorem map_node_operationsOf
    (course : List Evaluated) :
    (operationsOf course).map Evaluated.node =
      (course.map Evaluated.node).filter Node.isChange := by
  rw [List.filter_map]
  rfl

/--
Without conditional blocks, nodes are completed in post-order up to the one that fails, and
the declarations and assignments among them are the changes that lead to the final chain.
-/
theorem evaluate_follows_postorder
    {n : Node}
    (hn : n.isUnconditional = true)
    (c : Chain) :
    ∃ course changes,
      Course c course (leaves (n.evaluate c)) ∧
      List.Forall₂ (fun e change => e.node.change? e.value = some change)
        (operationsOf course) changes ∧
      c.Replays changes (leaves (n.evaluate c)) ∧
      (∀ v c', n.evaluate c = .ok v c' →
        course.map Evaluated.node = n.postorder ∧
          (operationsOf course).map Evaluated.node = n.operations) ∧
      ∀ fault c', n.evaluate c = .error fault c' →
        BreaksOff c n.postorder course fault c' ∧
          (operationsOf course).map Evaluated.node <+: n.operations := by
  have htraces := n.traces_evaluate hn
  cases hrun : n.evaluate c with
  | ok v c' =>
      obtain ⟨course, hnodes, hcourse⟩ := htraces.ok c v c' hrun
      obtain ⟨changes, hchanges, hreplays⟩ := hcourse.exists_replays
      refine ⟨course, changes, hcourse, hchanges, hreplays, ?_, ?_⟩
      · intro _ _ _
        rw [map_node_operationsOf, hnodes]
        exact ⟨rfl, rfl⟩
      · intro fault c₁ h
        cases h
  | error fault c' =>
      obtain ⟨course, hbreaks⟩ := htraces.error c fault c' hrun
      have hcourse : Course c course c' := by
        obtain ⟨earlier, below, culprit, later, b, rfl, _, _, hearlier,
            hbelow, _⟩ := hbreaks
        exact hearlier.append hbelow
      obtain ⟨changes, hchanges, hreplays⟩ := hcourse.exists_replays
      refine ⟨course, changes, hcourse, hchanges, hreplays, ?_, ?_⟩
      · intro v c₁ h
        cases h
      · intro fault₁ c₁ h
        cases h
        refine ⟨hbreaks, ?_⟩
        rw [map_node_operationsOf]
        exact hbreaks.isPrefix.filter Node.isChange

/-- Both operands are evaluated, though the first one is false. The outer assignment on the
right fails, since nothing declares its name, and the inner one has been made. The
declaration that comes after is not reached. -/
theorem evaluate_follows_postorder_nested :
    ∃ (n : Node) (c' : Chain) (course : List Evaluated) (changes : List Change),
      n.isUnconditional = true ∧
      n.evaluate (.single []) = .error ⟨.notDeclared "b", .start⟩ c' ∧
      n.operations.map (fun m => (m.change? .null).isSome) = List.replicate 5 true ∧
      BreaksOff (.single []) n.postorder course ⟨.notDeclared "b", .start⟩ c' ∧
      (operationsOf course).map Evaluated.node <+: n.operations ∧
      List.Forall₂ (fun e change => e.node.change? e.value = some change)
        (operationsOf course) changes ∧
      Chain.Replays (.single []) changes c' ∧
      c' = .single [("a", ⟨.string "c", false⟩)] := by
  let n : Node := .program .start
    [.declaration .start "a" .start false none,
      .operation .logical .start "&&" .start
        (.assignment .start (.identifier .start "a") (.string .start ""))
        (.assignment .start (.identifier .start "b")
          (.assignment .start (.identifier .start "a") (.string .start "c"))),
      .declaration .start "d" .start true (some (.string .start "e"))]
  have hn : n.isUnconditional = true := rfl
  have hrun : n.evaluate (.single []) =
      .error ⟨.notDeclared "b", .start⟩ (.single [("a", ⟨.string "c", false⟩)]) := rfl
  obtain ⟨course, changes, _, hchanges, hreplays, _, hfailed⟩ :=
    evaluate_follows_postorder hn (.single [])
  obtain ⟨hbreaks, hfirst⟩ := hfailed _ _ hrun
  rw [hrun] at hreplays
  exact ⟨n, _, course, changes, hn, hrun, rfl, hbreaks, hfirst, hchanges, hreplays, rfl⟩

end LetLang
