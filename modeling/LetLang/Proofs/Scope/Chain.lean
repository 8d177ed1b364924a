import LetLang.Scope.Chain

/-!
# Reading a chain after a change

What is found in a scope, and in the scopes of a chain, after a binding has been added or
given a new value: the new binding under its own name, and what was found before under
every other name.
-/

namespace LetLang
namespace Ledger

variable {κ α : Type} [DecidableEq κ]

/-- A key that is there stays at its place. -/
theorem keys_put_of_get?
    {key : κ} {l : Ledger κ α} {old : α}
    (h : get? key l = some old)
    (entry : α) :
    keys (put key entry l) = keys l := by
  induction l with
  | nil => cases h
  | cons head rest ih =>
      by_cases hk : head.1 = key
      · simp [put, keys, hk]
      · simp only [get?, if_neg hk] at h
        have htail := ih h
        simp only [keys] at htail
        simp only [put, keys, if_neg hk, List.map_cons, htail]

end Ledger

namespace Scope

@[simp] theorem find?_put_self
    (name : String) (b : Binding) (s : Scope) :
    find? (Ledger.put name b s) name = some b := by
  exact Ledger.get?_put_self name b s

theorem find?_put_of_ne
    {name other : String}
    (h : name ≠ other)
    (b : Binding) (s : Scope) :
    find? (Ledger.put name b s) other = s.find? other := by
  exact Ledger.get?_put_of_ne h b s

end Scope

namespace Chain

variable {name other : String}

theorem findIn?_cons_of_none
    {s : Scope}
    (h : s.find? name = none)
    (rest : List Scope) :
    findIn? name (s :: rest) = findIn? name rest := by
  rw [findIn?, h, Option.none_or]

theorem findIn?_cons_of_some
    {s : Scope} {b : Binding}
    (h : s.find? name = some b)
    (rest : List Scope) :
    findIn? name (s :: rest) = some b := by
  rw [findIn?, h, Option.some_or]

/-- The new value is found with the nature that the name has. -/
theorem findIn?_setIn_self
    {scopes : List Scope} {b : Binding}
    (h : findIn? name scopes = some b)
    (v : Value) :
    findIn? name (setIn name v scopes) = some { b with value := v } := by
  induction scopes with
  | nil => cases h
  | cons s rest ih =>
      rw [setIn]
      cases hs : s.find? name with
      | some b' =>
          rw [findIn?_cons_of_some hs] at h
          cases h
          exact findIn?_cons_of_some (Scope.find?_put_self name _ s) rest
      | none =>
          rw [findIn?_cons_of_none hs] at h
          exact (findIn?_cons_of_none hs _).trans (ih h)

theorem findIn?_setIn_of_ne
    (h : name ≠ other)
    (v : Value) (scopes : List Scope) :
    findIn? other (setIn name v scopes) = findIn? other scopes := by
  induction scopes with
  | nil => rfl
  | cons s rest ih =>
      rw [setIn]
      cases hs : s.find? name with
      | some b => rw [findIn?, findIn?, Scope.find?_put_of_ne h]
      | none => rw [findIn?, findIn?, ih]

/-- A new value adds no name to any scope. -/
theorem keys_setIn
    (name : String) (v : Value) (scopes : List Scope) :
    (setIn name v scopes).map Ledger.keys = scopes.map Ledger.keys := by
  induction scopes with
  | nil => rfl
  | cons s rest ih =>
      rw [setIn]
      cases hs : s.find? name with
      | some b => rw [List.map_cons, List.map_cons, Ledger.keys_put_of_get? hs]
      | none => rw [List.map_cons, List.map_cons, ih]

theorem outer_set_cases
    (c : Chain) (name : String) (v : Value) :
    (c.set name v).outer = c.outer ∨ (c.set name v).outer = setIn name v c.outer := by
  unfold set
  cases c.inner.find? name with
  | some b => exact Or.inl rfl
  | none => exact Or.inr rfl

theorem inner_set_isSome
    (c : Chain) (name other : String) (v : Value) :
    ((c.set name v).inner.find? other).isSome = (c.inner.find? other).isSome := by
  unfold set
  cases hname : c.inner.find? name with
  | none => rfl
  | some b =>
      by_cases h : name = other
      · subst h
        simp [hname]
      · simp [Scope.find?_put_of_ne h]

end Chain
end LetLang
