import LetLang.Proofs.Evaluation.Simulation
import LetLang.Proofs.Scope.Chain

/-!
# A chain of scopes as one scope

What a chain shows can be put into a single scope: under each visible name its innermost
binding, as a variable or a constant as it is there. A tree cannot tell the chain from that
scope, as long as it declares no name that only an outer scope binds: such a name is free
in the innermost scope of the chain and taken in the single one. Assignments go to
different scopes of the chain, but what the chain shows afterwards is again what the single
scope holds.
-/

namespace LetLang
namespace Ledger

variable {κ α : Type} [DecidableEq κ]

theorem get?_append
    (key : κ) (l m : Ledger κ α) :
    get? key (l ++ m) = (get? key l).or (get? key m) := by
  induction l with
  | nil => rfl
  | cons head rest ih => by_cases h : head.1 = key <;> simp [get?, h, ih]

theorem get?_filter_of_true
    {p : κ → Bool} {key : κ}
    (h : p key = true)
    (l : Ledger κ α) :
    get? key (l.filter fun entry => p entry.1) = get? key l := by
  induction l with
  | nil => rfl
  | cons head rest ih =>
      by_cases hk : head.1 = key
      · simp [get?, hk, h]
      · by_cases hp : p head.1 = true <;> simp [get?, hk, hp, ih]

end Ledger

namespace Chain

/-- The first bindings of all names that the scopes bind, in one scope. -/
def flattenIn : List Scope → Scope
  | [] => .empty
  | s :: rest => s ++ (flattenIn rest).filter fun entry => (s.find? entry.1).isNone

/-- The single scope that holds what the chain shows. -/
def flatten (c : Chain) : Scope :=
  flattenIn c.scopes

theorem find?_flattenIn
    (name : String) (scopes : List Scope) :
    (flattenIn scopes).find? name = findIn? name scopes := by
  induction scopes with
  | nil => rfl
  | cons s rest ih =>
      rw [flattenIn, findIn?, Scope.find?, Ledger.get?_append]
      change (s.find? name).or _ = (s.find? name).or _
      cases hs : s.find? name with
      | some b => rfl
      | none =>
          rw [Option.none_or, Option.none_or, ← ih]
          exact Ledger.get?_filter_of_true (p := fun key => (s.find? key).isNone)
            (by rw [hs]; rfl) (flattenIn rest)

end Chain

/-- The scope holds what the chain shows: under each visible name its innermost binding,
and nothing under any other name. -/
def Scope.Flattens (s : Scope) (c : Chain) : Prop :=
  ∀ name, s.find? name = Chain.findIn? name c.scopes

namespace Chain

variable {c d : Chain} {names : List String} {name : String}

theorem flattens_flatten
    (c : Chain) :
    c.flatten.Flattens c := by
  intro name
  exact find?_flattenIn name c.scopes

/-- Each of the names is bound in the innermost scope, or in no scope at all. -/
def BindsInside (c : Chain) (names : List String) : Prop :=
  ∀ name ∈ names, (c.inner.find? name).isSome ∨ findIn? name c.scopes = none

/-- The second chain is a single scope that holds what the first one shows, and the names
can be declared in both or in none. -/
structure Flat (names : List String) (c d : Chain) : Prop where
  outer_eq : d.outer = []
  flattens : d.inner.Flattens c
  bindsInside : c.BindsInside names

theorem scopes_eq_singleton
    (h : d.outer = []) :
    d.scopes = [d.inner] := by
  rw [scopes, h]

theorem findIn?_singleton
    (name : String) (s : Scope) :
    findIn? name [s] = s.find? name := by
  rw [findIn?, findIn?, Option.or_none]

theorem Flat.findIn?_eq
    (h : Flat names c d)
    (name : String) :
    findIn? name c.scopes = findIn? name d.scopes := by
  rw [scopes_eq_singleton h.outer_eq, findIn?_singleton, h.flattens name]

/-- A name that may be declared is new to the innermost scope exactly if it is new to the
single one. -/
theorem Flat.inner_eq_none_iff
    (h : Flat names c d)
    (hname : name ∈ names) :
    c.inner.find? name = none ↔ d.inner.find? name = none := by
  rw [h.flattens name]
  rcases h.bindsInside name hname with hsome | hnone
  · obtain ⟨b, hb⟩ := Option.isSome_iff_exists.mp hsome
    rw [scopes, findIn?_cons_of_some hb, hb]
  · have hinner : c.inner.find? name = none := by
      rw [scopes, findIn?] at hnone
      exact (Option.or_eq_none_iff.mp hnone).1
    rw [hnone, hinner]

theorem Flat.declare
    (h : Flat names c d)
    (name : String) (b : Binding) :
    Flat names { c with inner := Ledger.put name b c.inner }
      { d with inner := Ledger.put name b d.inner } := by
  refine ⟨h.outer_eq, ?_, ?_⟩
  · intro other
    by_cases hname : name = other
    · subst hname
      rw [Scope.find?_put_self, scopes,
        findIn?_cons_of_some (Scope.find?_put_self name b c.inner)]
    · rw [Scope.find?_put_of_ne hname, scopes, findIn?, Scope.find?_put_of_ne hname]
      exact h.flattens other
  · intro other hother
    by_cases hname : name = other
    · subst hname
      exact Or.inl (by rw [Scope.find?_put_self]; rfl)
    · rw [Scope.find?_put_of_ne hname, scopes, findIn?, Scope.find?_put_of_ne hname]
      exact h.bindsInside other hother

theorem Flat.set
    {b : Binding}
    (h : Flat names c d)
    (hname : findIn? name c.scopes = some b)
    (v : Value) :
    Flat names (c.set name v) (d.set name v) := by
  have hd : d.inner.find? name = some b := (h.flattens name).trans hname
  have hset : d.set name v =
      { d with inner := Ledger.put name { b with value := v } d.inner } := by
    rw [Chain.set, hd]
  rw [hset]
  refine ⟨h.outer_eq, ?_, ?_⟩
  · intro other
    rw [scopes_set]
    by_cases hne : name = other
    · subst hne
      rw [Scope.find?_put_self, findIn?_setIn_self hname]
    · rw [Scope.find?_put_of_ne hne, findIn?_setIn_of_ne hne]
      exact h.flattens other
  · intro other hother
    rw [inner_set_isSome, scopes_set]
    rcases h.bindsInside other hother with hsome | hnone
    · exact Or.inl hsome
    · have hne : name ≠ other := by
        rintro rfl
        rw [hname] at hnone
        cases hnone
      rw [findIn?_setIn_of_ne hne]
      exact Or.inr hnone

end Chain

open Evaluation

/-- A tree cannot tell a chain from a single scope that holds what the chain shows. -/
theorem Node.respects_flat
    (n : Node) :
    Respects (Chain.Flat n.declaredNames) n.evaluate := by
  refine n.respects_evaluate ⟨?_, ?_, ?_⟩
  · intro name _ pos
    exact respects_lookup pos fun c d h => h.findIn?_eq name
  · intro name hname pos constant v
    refine respects_declare pos constant v ?_ ?_
    · intro c d h
      exact h.inner_eq_none_iff hname
    · intro c d h _
      exact h.declare name _
  · intro name _ pos v
    refine respects_assign pos v ?_ ?_
    · intro c d h
      exact h.findIn?_eq name
    · intro c d b h hfind
      exact h.set hfind v

/--
If a tree declares no name that an outer scope binds, it is evaluated in a chain as in the
single scope that holds what the chain shows.
-/
theorem evaluate_flattened
    {n : Node} {c : Chain}
    (h : c.BindsInside n.declaredNames) :
    c.flatten.Flattens c ∧
      ∀ s : Scope, s.Flattens c →
        (∃ v c' s', n.evaluate c = .ok v c' ∧
          n.evaluate (.single s) = .ok v (.single s') ∧ s'.Flattens c') ∨
        ∃ fault c' s', n.evaluate c = .error fault c' ∧
          n.evaluate (.single s) = .error fault (.single s') ∧ s'.Flattens c' := by
  refine ⟨c.flattens_flatten, ?_⟩
  intro s hs
  have hends := n.respects_flat c (.single s) ⟨rfl, hs, h⟩
  generalize n.evaluate c = r at hends ⊢
  generalize n.evaluate (.single s) = r' at hends ⊢
  cases hends with
  | @ok v c' d' hnext =>
      rcases d' with ⟨s', outer⟩
      obtain rfl : outer = [] := hnext.outer_eq
      exact Or.inl ⟨v, c', s', rfl, rfl, hnext.flattens⟩
  | @error fault c' d' hnext =>
      rcases d' with ⟨s', outer⟩
      obtain rfl : outer = [] := hnext.outer_eq
      exact Or.inr ⟨fault, c', s', rfl, rfl, hnext.flattens⟩

/-- The variable `x` hides a constant, and `y` is a variable of an outer scope. Both get
new values and a name is declared, before the assignment to the constant `k` fails. -/
theorem evaluate_flattened_hidden :
    ∃ (n : Node) (c c' : Chain) (s' : Scope),
      c.BindsInside n.declaredNames ∧
      n.evaluate c = .error ⟨.constantName "k", .start⟩ c' ∧
      n.evaluate (.single c.flatten) = .error ⟨.constantName "k", .start⟩ (.single s') ∧
      s'.Flattens c' ∧
      s'.find? "x" = some ⟨.string "a", false⟩ ∧ s'.find? "y" = some ⟨.string "b", false⟩ ∧
      s'.find? "z" = some ⟨.string "a", true⟩ ∧
        c'.outer.map (·.find? "x") = [some ⟨.null, true⟩, none] := by
  let n : Node := .program .start
    [.assignment .start (.identifier .start "x") (.string .start "a"),
      .assignment .start (.identifier .start "y") (.string .start "b"),
      .declaration .start "z" .start true (some (.identifier .start "x")),
      .assignment .start (.identifier .start "k") (.identifier .start "z")]
  let c : Chain := ⟨[("x", ⟨.bool true, false⟩)],
    [[("x", ⟨.null, true⟩), ("k", ⟨.null, true⟩)],
      [("y", ⟨.null, false⟩), ("k", ⟨.null, false⟩)]]⟩
  have hinside : c.BindsInside n.declaredNames := by
    have hnames : n.declaredNames = ["z"] := rfl
    rw [hnames]
    intro name hname
    rw [List.mem_singleton] at hname
    subst hname
    exact Or.inr rfl
  rcases (evaluate_flattened hinside).2 c.flatten c.flattens_flatten with
    ⟨_, _, _, hrun, _⟩ | ⟨fault, c', s', hc, hs, hflattens⟩
  · cases hrun
  · cases hc
    cases hs
    exact ⟨n, c, _, _, hinside, rfl, rfl, hflattens, rfl, rfl, rfl, rfl⟩

end LetLang
