import LetLang.Proofs.Evaluation.Likeness
import LetLang.Proofs.Evaluation.Recording
import LetLang.Proofs.Tree.Subtrees

/-!
# Chains that evaluation cannot tell apart

A relation between chains of scopes is respected by a computation if, run in two related
chains, it gives the same value or the same fault, and leaves related chains behind. The
only way in which a tree gets at a chain is to look up, declare and assign to the names
that stand in it. So a tree respects every relation that these accesses respect, by
`Node.respects_evaluate`. An invariant is the special case in which both chains are one:
`Node.maintains_evaluate`.
-/

namespace LetLang

/-- Two runs end the same way: with one value or with one fault, in chains that
are related. -/
inductive SameEnd {α : Type} (R : Chain → Chain → Prop) :
    EStateM.Result Fault Chain α → EStateM.Result Fault Chain α → Prop
  | ok
      (a : α) {c d : Chain}
      (h : R c d) :
      SameEnd R (.ok a c) (.ok a d)
  | error
      (fault : Fault) {c d : Chain}
      (h : R c d) :
      SameEnd R (.error fault c) (.error fault d)

namespace Evaluation

variable {α : Type} {R : Chain → Chain → Prop} {P : Chain → Prop}

/-- Run in related chains, the computation ends the same way. -/
def Respects (R : Chain → Chain → Prop) (m : Evaluation α) : Prop :=
  ∀ c d, R c d → SameEnd R (m c) (m d)

section Accesses

variable {name : String}

theorem respects_lookup
    (pos : Pos)
    (hfind : ∀ c d, R c d → Chain.findIn? name c.scopes = Chain.findIn? name d.scopes) :
    Respects R (lookup pos name) := by
  intro c d h
  unfold lookup Chain.lookup
  rw [hfind c d h]
  cases Chain.findIn? name d.scopes with
  | none => exact .error _ h
  | some b => exact .ok _ h

theorem respects_declare
    (pos : Pos) (constant : Bool) (v : Value)
    (hinner : ∀ c d, R c d → (c.inner.find? name = none ↔ d.inner.find? name = none))
    (hput : ∀ c d, R c d → c.inner.find? name = none →
      R { c with inner := Ledger.put name ⟨v, constant⟩ c.inner }
        { d with inner := Ledger.put name ⟨v, constant⟩ d.inner }) :
    Respects R (declare pos name constant v) := by
  intro c d h
  have hiff := hinner c d h
  unfold declare Chain.declare
  cases hc : c.inner.find? name with
  | none =>
      rw [hiff.mp hc]
      exact .ok v (hput c d h hc)
  | some b =>
      cases hd : d.inner.find? name with
      | none =>
          rw [hiff.mpr hd] at hc
          cases hc
      | some b' => exact .error _ h

theorem respects_assign
    (pos : Pos) (v : Value)
    (hfind : ∀ c d, R c d → Chain.findIn? name c.scopes = Chain.findIn? name d.scopes)
    (hset : ∀ c d b, R c d → Chain.findIn? name c.scopes = some b →
      R (c.set name v) (d.set name v)) :
    Respects R (assign pos name v) := by
  intro c d h
  unfold assign Chain.assign
  rw [← hfind c d h]
  cases hc : Chain.findIn? name c.scopes with
  | none => exact .error _ h
  | some b =>
      dsimp only
      cases b.constant with
      | true => exact .error _ h
      | false => exact .ok v (hset c d b h hc)

end Accesses

/-- The computation keeps what holds of the chain, whether it succeeds or fails. -/
def Maintains (P : Chain → Prop) (m : Evaluation α) : Prop :=
  ∀ c, P c → P (leaves (m c))

/-- Invariants are the relations of a chain to itself. -/
theorem respects_diagonal_iff
    {m : Evaluation α} :
    Respects (fun c d => c = d ∧ P c) m ↔ Maintains P m := by
  constructor
  · intro h c hc
    have hends := h c c ⟨rfl, hc⟩
    generalize m c = r at hends ⊢
    cases hends with
    | ok a hnext => exact hnext.2
    | error fault hnext => exact hnext.2
  · rintro h c _ ⟨rfl, hc⟩
    have hnext := h c hc
    generalize m c = r at hnext ⊢
    cases r with
    | ok a c' => exact .ok a ⟨rfl, hnext⟩
    | error fault c' => exact .error fault ⟨rfl, hnext⟩

end Evaluation

open Evaluation

namespace Node

variable {R : Chain → Chain → Prop}

/-- Every access to a chain that the tree can make respects the relation. -/
structure AccessesRespect (R : Chain → Chain → Prop) (n : Node) : Prop where
  lookup : ∀ name ∈ n.identifiers, ∀ pos, Respects R (lookup pos name)
  declare : ∀ name ∈ n.declaredNames, ∀ pos constant v,
    Respects R (declare pos name constant v)
  assign : ∀ name ∈ n.assignedNames, ∀ pos v, Respects R (assign pos name v)

/-- A part of the tree makes no other accesses. -/
theorem AccessesRespect.of_subset
    {m n : Node}
    (h : AccessesRespect R n)
    (hsub : m.subtrees ⊆ n.subtrees) :
    AccessesRespect R m := by
  have hnames : ∀ (f : Node → Option String) name, name ∈ m.subtrees.filterMap f →
      name ∈ n.subtrees.filterMap f := by
    intro f name hname
    obtain ⟨k, hk, hf⟩ := List.mem_filterMap.mp hname
    exact List.mem_filterMap.mpr ⟨k, hsub hk, hf⟩
  exact ⟨fun name hname => h.lookup name (hnames _ name hname),
    fun name hname => h.declare name (hnames _ name hname),
    fun name hname => h.assign name (hnames _ name hname)⟩

/-- The name of an access is a name of the node itself. -/
theorem mem_filterMap_self
    {f : Node → Option String} {n : Node} {name : String}
    (h : f n = some name) :
    name ∈ n.subtrees.filterMap f := by
  exact List.mem_filterMap.mpr ⟨n, n.mem_subtrees_self, h⟩

/-- The likeness of runs that end the same way, in chains that are related. -/
def sameRuns (R : Chain → Chain → Prop) : Likeness :=
  ⟨Eq, Eq, R, fun _ => False⟩

theorem runsAlike_sameRuns_iff
    {m : Evaluation Value} :
    (sameRuns R).RunsAlike m m ↔ Respects R m := by
  constructor
  · intro h c d hchain
    have hends := h c d hchain
    generalize m c = r at hends ⊢
    generalize m d = r' at hends ⊢
    cases hends with
    | ok hvalue hnext =>
        cases hvalue
        exact .ok _ hnext
    | error hfault hnext =>
        cases hfault
        exact .error _ hnext
    | excusedLeft h => exact h.elim
    | excusedRight h => exact h.elim
  · intro h c d hchain
    have hends := h c d hchain
    generalize m c = r at hends ⊢
    generalize m d = r' at hends ⊢
    cases hends with
    | ok a hnext => exact .ok rfl hnext
    | error fault hnext => exact .error rfl hnext

theorem answersAlike_sameRuns
    (pos : Pos) (answer : Except Cause Value) :
    (sameRuns R).AnswersAlike pos pos answer answer := by
  cases answer with
  | ok v => exact .ok rfl
  | error cause => exact .error rfl

/-- What a node does itself respects the relation, and its parts make no other accesses. -/
theorem AccessesRespect.rootsAlike
    {n : Node}
    (h : AccessesRespect R n) :
    (sameRuns R).RootsAlike (fun k m => k = m ∧ AccessesRespect R k) n n := by
  have hpart : ∀ k : Node, k.subtrees ⊆ n.subtrees → k = k ∧
      AccessesRespect R k := fun k hsub =>
    ⟨rfl, h.of_subset hsub⟩
  cases n with
  | program pos body =>
      refine .program rfl (List.forall₂_same.mpr fun m hm => hpart m fun k hk => ?_)
      simp [subtrees, mem_subtreesAll hm hk]
  | declaration pos name namePos constant value =>
      have hdeclare : ∀ v w, v = w → (sameRuns R).RunsAlike
          (Evaluation.declare namePos name constant v)
          (Evaluation.declare namePos name constant w) := by
        rintro v _ rfl
        exact runsAlike_sameRuns_iff.mpr
          (h.declare name (mem_filterMap_self rfl) namePos constant v)
      cases value with
      | none => exact .declaration (hdeclare .null .null rfl)
      | some value =>
          refine .initialized (hpart value fun k hk => ?_) hdeclare
          simp [subtrees, hk]
  | conditional pos branch condition block =>
      refine .conditional rfl ?_ (hpart condition fun k hk => ?_)
        (List.forall₂_same.mpr fun m hm => hpart m fun k hk => ?_)
      · rintro v _ rfl
        rfl
      · simp [subtrees, hk]
      · simp [subtrees, mem_subtreesAll hm hk]
  | identifier pos name =>
      exact .identifier
        (runsAlike_sameRuns_iff.mpr (h.lookup name (mem_filterMap_self rfl) pos))
  | number pos x => exact .number rfl
  | string pos text => exact .string rfl
  | operation family pos symbol symbolPos left right =>
      have hleft := hpart left fun k hk => by simp [subtrees, hk]
      have hright := hpart right fun k hk => by simp [subtrees, hk]
      cases family with
      | arithmetic =>
          refine .arithmetic hleft hright ?_
          rintro l _ r _ rfl rfl
          exact answersAlike_sameRuns symbolPos _
      | logical =>
          refine .logical hleft hright ?_
          rintro l _ r _ rfl rfl
          exact answersAlike_sameRuns symbolPos _
      | untyped => exact .untyped rfl
  | unary pos symbol operand =>
      refine .unary (hpart operand fun k hk => by simp [subtrees, hk]) ?_
      rintro v _ rfl
      exact answersAlike_sameRuns pos _
  | assignment pos target value =>
      rcases target.identifier_or_not with ⟨namePos, name, rfl⟩ | htarget
      · refine .assignment rfl (hpart value fun k hk => by simp [subtrees, hk]) ?_
        rintro v _ rfl
        exact runsAlike_sameRuns_iff.mpr (h.assign name (mem_filterMap_self rfl) namePos v)
      · exact .notAssignable htarget htarget rfl
  | unknown pos kindName => exact .unknown rfl

/-- A tree respects every relation that its accesses respect. -/
theorem respects_evaluate
    (n : Node)
    (h : AccessesRespect R n) :
    Respects R n.evaluate := by
  exact runsAlike_sameRuns_iff.mp
    (Likeness.runsAlike_evaluate_self (fun _ hn => hn.rootsAlike) h)

/-- What new bindings and new values of the names that the tree changes do not disturb
holds after evaluation if it holds before. -/
theorem maintains_evaluate
    {P : Chain → Prop} {n : Node}
    (hdeclare : ∀ name ∈ n.declaredNames, ∀ c b, P c → c.inner.find? name = none →
      P { c with inner := Ledger.put name b c.inner })
    (hassign : ∀ name ∈ n.assignedNames, ∀ c b v, P c →
      Chain.findIn? name c.scopes = some b → P (c.set name v)) :
    Maintains P n.evaluate := by
  refine respects_diagonal_iff.mp (n.respects_evaluate ⟨?_, ?_, ?_⟩)
  · intro name _ pos
    refine respects_lookup pos ?_
    rintro c _ ⟨rfl, _⟩
    rfl
  · intro name hname pos constant v
    refine respects_declare pos constant v ?_ ?_
    · rintro c _ ⟨rfl, _⟩
      exact Iff.rfl
    · rintro c _ ⟨rfl, hc⟩ hnone
      exact ⟨rfl, hdeclare name hname c _ hc hnone⟩
  · intro name hname pos v
    refine respects_assign pos v ?_ ?_
    · rintro c _ ⟨rfl, _⟩
      rfl
    · rintro c _ b ⟨rfl, hc⟩ hsome
      exact ⟨rfl, hassign name hname c b v hc hsome⟩

end Node
end LetLang
