import LetLang.Proofs.Evaluation.Simulation
import LetLang.Proofs.Scope.Chain
import Mathlib.Data.List.Forall2

/-!
# What evaluation reads and writes

A tree depends on a chain of scopes only through the names that stand in it, and changes it
only at the names that it declares or assigns to. Chains that agree on the names of a tree
cannot be told apart by it. Bindings of names that are not changed stay as they are, in
every scope, and outside the innermost scope there is never a new name.
-/

namespace LetLang

/-- The scopes have the same bindings of those names. -/
def Scope.AgreeOn (P : String → Prop) (s t : Scope) : Prop :=
  ∀ name, P name → s.find? name = t.find? name

/-- There are equally many scopes, and scope by scope they have the same bindings of
those names. -/
def Chain.AgreeOn (P : String → Prop) (c d : Chain) : Prop :=
  List.Forall₂ (Scope.AgreeOn P) c.scopes d.scopes

namespace Scope

variable {P : String → Prop} {s t u : Scope}

theorem AgreeOn.refl
    (P : String → Prop) (s : Scope) :
    s.AgreeOn P s := by
  intro name _
  rfl

theorem AgreeOn.trans
    (hst : s.AgreeOn P t)
    (htu : t.AgreeOn P u) :
    s.AgreeOn P u := by
  intro name hname
  exact (hst name hname).trans (htu name hname)

theorem AgreeOn.put
    (h : s.AgreeOn P t)
    (name : String) (b : Binding) :
    AgreeOn P (Ledger.put name b s) (Ledger.put name b t) := by
  intro other hother
  by_cases hname : name = other
  · subst hname
    rw [find?_put_self, find?_put_self]
  · rw [find?_put_of_ne hname, find?_put_of_ne hname]
    exact h other hother

theorem agreeOn_put
    {name : String}
    (h : ¬ P name)
    (b : Binding) (s : Scope) :
    s.AgreeOn P (Ledger.put name b s) := by
  intro other hother
  have hne : name ≠ other := by
    rintro rfl
    exact h hother
  exact (find?_put_of_ne hne b s).symm

end Scope

namespace Chain

variable {P : String → Prop} {c d e : Chain} {name : String}

theorem AgreeOn.refl
    (P : String → Prop) (c : Chain) :
    c.AgreeOn P c := by
  exact List.forall₂_same.mpr fun s _ => .refl P s

theorem forall₂_agreeOn_trans
    {ss ts us : List Scope}
    (hst : List.Forall₂ (Scope.AgreeOn P) ss ts)
    (htu : List.Forall₂ (Scope.AgreeOn P) ts us) :
    List.Forall₂ (Scope.AgreeOn P) ss us := by
  induction hst generalizing us with
  | nil => exact htu
  | cons hscope _ ih =>
      cases htu with
      | cons hscope' hrest' => exact .cons (hscope.trans hscope') (ih hrest')

theorem AgreeOn.trans
    (hcd : c.AgreeOn P d)
    (hde : d.AgreeOn P e) :
    c.AgreeOn P e := by
  exact forall₂_agreeOn_trans hcd hde

theorem AgreeOn.inner
    (h : c.AgreeOn P d) :
    c.inner.AgreeOn P d.inner := by
  exact (List.forall₂_cons.mp h).1

theorem AgreeOn.outer
    (h : c.AgreeOn P d) :
    List.Forall₂ (Scope.AgreeOn P) c.outer d.outer := by
  exact (List.forall₂_cons.mp h).2

theorem findIn?_congr
    {ss ts : List Scope}
    (h : List.Forall₂ (Scope.AgreeOn P) ss ts)
    (hname : P name) :
    findIn? name ss = findIn? name ts := by
  induction h with
  | nil => rfl
  | cons hscope _ ih => rw [findIn?, findIn?, hscope name hname, ih]

theorem forall₂_setIn_of_agreeOn
    {ss ts : List Scope}
    (h : List.Forall₂ (Scope.AgreeOn P) ss ts)
    (hname : P name)
    (v : Value) :
    List.Forall₂ (Scope.AgreeOn P) (setIn name v ss) (setIn name v ts) := by
  induction h with
  | nil => exact .nil
  | @cons s t ss ts hscope hrest ih =>
      rw [setIn, setIn, hscope name hname]
      cases t.find? name with
      | some b => exact .cons (hscope.put name _) hrest
      | none => exact .cons hscope ih

theorem agreeOn_setIn
    (hname : ¬ P name)
    (v : Value) (scopes : List Scope) :
    List.Forall₂ (Scope.AgreeOn P) scopes (setIn name v scopes) := by
  induction scopes with
  | nil => exact .nil
  | cons s rest ih =>
      rw [setIn]
      cases s.find? name with
      | some b =>
          exact .cons (Scope.agreeOn_put hname _ s)
            (List.forall₂_same.mpr fun t _ => .refl P t)
      | none => exact .cons (.refl P s) ih

/-- Chains that agree on a name still agree on it after it has got a new value in both. -/
theorem AgreeOn.set
    (h : c.AgreeOn P d)
    (hname : P name)
    (v : Value) :
    (c.set name v).AgreeOn P (d.set name v) := by
  unfold AgreeOn
  rw [scopes_set, scopes_set]
  exact forall₂_setIn_of_agreeOn h hname v

theorem agreeOn_set
    (hname : ¬ P name)
    (c : Chain) (v : Value) :
    c.AgreeOn P (c.set name v) := by
  unfold AgreeOn
  rw [scopes_set]
  exact agreeOn_setIn hname v c.scopes

theorem keys_outer_set
    (c : Chain) (name : String) (v : Value) :
    (c.set name v).outer.map Ledger.keys = c.outer.map Ledger.keys := by
  rcases outer_set_cases c name v with h | h
  · rw [h]
  · rw [h, keys_setIn]

end Chain

open Evaluation

namespace Node

/-- A tree cannot tell chains apart that agree on its names, and whatever else they agree
on they still agree on afterwards. -/
theorem respects_agreeOn
    {P : String → Prop} {n : Node}
    (hP : ∀ name ∈ n.names, P name) :
    Respects (Chain.AgreeOn P) n.evaluate := by
  refine n.respects_evaluate ⟨?_, ?_, ?_⟩
  · intro name hname pos
    have hP := hP name (mem_names_of_mem_identifiers hname)
    exact respects_lookup pos fun c d h => Chain.findIn?_congr h hP
  · intro name hname pos constant v
    have hP := hP name (mem_names_of_mem_changedNames (List.mem_append_left _ hname))
    refine respects_declare pos constant v ?_ ?_
    · intro c d h
      rw [h.inner name hP]
    · intro c d h _
      exact .cons (h.inner.put name _) h.outer
  · intro name hname pos v
    have hP := hP name (mem_names_of_mem_changedNames (List.mem_append_right _ hname))
    refine respects_assign pos v ?_ ?_
    · intro c d h
      exact Chain.findIn?_congr h hP
    · intro c d b h _
      exact h.set hP v

/-- A tree leaves the bindings of names that it does not change as they are, in
every scope. -/
theorem agreeOn_evaluate
    {P : String → Prop} {n : Node}
    (hP : ∀ name ∈ n.changedNames, ¬ P name)
    (c : Chain) :
    c.AgreeOn P (leaves (n.evaluate c)) := by
  refine maintains_evaluate (P := fun d => c.AgreeOn P d) ?_ ?_ c (.refl P c)
  · intro name hname d b h _
    have hput := Scope.agreeOn_put (hP name (List.mem_append_left _ hname)) b d.inner
    exact .cons (h.inner.trans hput) h.outer
  · intro name hname d b v h _
    exact h.trans (Chain.agreeOn_set (hP name (List.mem_append_right _ hname)) d v)

/-- A tree adds no name to any scope but the innermost. -/
theorem keys_outer_evaluate
    (n : Node) (c : Chain) :
    (leaves (n.evaluate c)).outer.map Ledger.keys = c.outer.map Ledger.keys := by
  refine maintains_evaluate (P := fun d => d.outer.map Ledger.keys =
    c.outer.map Ledger.keys) ?_ ?_ c rfl
  · intro name _ d b h _
    exact h
  · intro name _ d b v h _
    rw [Chain.keys_outer_set, h]

end Node

/-- A text cannot tell chains apart that have the same bindings, whatever their order. -/
theorem respects_evaluateSource
    (source : String) :
    Respects (Chain.AgreeOn fun _ => True) (evaluateSource source) := by
  intro c d h
  unfold evaluateSource
  cases parse source with
  | error fault => exact .error fault h
  | ok program => exact program.respects_agreeOn (fun _ _ => trivial) c d h

/--
Evaluation depends only on the names of a tree, changes only those that it declares or
assigns to, and adds names only to the innermost scope.
-/
theorem evaluate_within_footprint
    (n : Node) {c d : Chain}
    (h : c.AgreeOn (· ∈ n.names) d) :
    SameEnd (Chain.AgreeOn (· ∈ n.names)) (n.evaluate c) (n.evaluate d) ∧
      ∀ e : Chain,
        e.AgreeOn (· ∉ n.changedNames) (leaves (n.evaluate e)) ∧
        (leaves (n.evaluate e)).outer.map Ledger.keys = e.outer.map Ledger.keys := by
  refine ⟨n.respects_agreeOn (fun _ hname => hname) c d h, ?_⟩
  intro e
  exact ⟨n.agreeOn_evaluate (fun _ hname hnot => hnot hname) e, n.keys_outer_evaluate e⟩

/-- A block assigns to a name of the outer scope and then fails, in both chains alike.
Names that only one chain has, or that have another value there, play no part and stay as
they are. -/
theorem evaluate_within_footprint_block :
    ∃ (n : Node) (c d c' d' : Chain),
      c.AgreeOn (· ∈ n.names) d ∧
      n.evaluate c = .error ⟨.notDeclared "z", .start⟩ c' ∧
        n.evaluate d = .error ⟨.notDeclared "z", .start⟩ d' ∧
      c'.lookup "y" = .ok (.string "b") ∧ d'.lookup "y" = .ok (.string "b") ∧
      c'.AgreeOn (· ∈ n.names) d' ∧ c.AgreeOn (· ∉ n.changedNames) c' ∧
        d.AgreeOn (· ∉ n.changedNames) d' := by
  let n : Node := .conditional .start .whenTrue (.identifier .start "x")
    [.assignment .start (.identifier .start "y") (.string .start "b"),
      .declaration .start "w" .start true (some (.identifier .start "z"))]
  let c : Chain :=
    ⟨[("x", ⟨.bool true, true⟩), ("u", ⟨.null, false⟩)], [[("y", ⟨.null, false⟩)]]⟩
  let d : Chain :=
    ⟨[("x", ⟨.bool true, true⟩)], [[("u", ⟨.bool false, true⟩), ("y", ⟨.null, false⟩)]]⟩
  have hnames : n.names = ["x", "y", "z", "w", "y"] := rfl
  have hagree : c.AgreeOn (· ∈ n.names) d := by
    rw [hnames]
    refine .cons ?_ (.cons ?_ .nil)
    all_goals
      intro name hname
      simp only [List.mem_cons, List.not_mem_nil, or_false] at hname
      rcases hname with rfl | rfl | rfl | rfl | rfl <;> rfl
  obtain ⟨hends, hframe⟩ := evaluate_within_footprint n hagree
  obtain ⟨c', hc⟩ : ∃ c', n.evaluate c = .error ⟨.notDeclared "z", .start⟩ c' := ⟨_, rfl⟩
  obtain ⟨d', hd⟩ : ∃ d', n.evaluate d = .error ⟨.notDeclared "z", .start⟩ d' := ⟨_, rfl⟩
  have hcframe := (hframe c).1
  have hdframe := (hframe d).1
  rw [hc] at hends hcframe
  rw [hd] at hends hdframe
  cases hends with
  | error _ hnext =>
      refine ⟨n, c, d, c', d', hagree, hc, hd, ?_, ?_, hnext, hcframe, hdframe⟩
      · cases hc
        rfl
      · cases hd
        rfl

end LetLang
