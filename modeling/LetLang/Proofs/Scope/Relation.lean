import LetLang.Scope.Chain
import Mathlib.Data.List.Forall2
import Mathlib.Data.Option.Basic

/-!
# Chains with related bindings

A relation between bindings goes over to scopes and chains: the same names are bound in the
same scopes, to related bindings. It is kept by new bindings and by new values, and what is
found for a name in one chain is related to what is found in the other. Where it is a
relation between values, variables correspond to variables and constants to constants.
-/

namespace LetLang

variable {V W : Value → Value → Prop} {R S : Binding → Binding → Prop}

/-- The scopes bind the same names, each to related bindings. The order of declaration
may differ. -/
def Scope.Corresponds (R : Binding → Binding → Prop) (s t : Scope) : Prop :=
  ∀ name, Option.Rel R (s.find? name) (t.find? name)

/-- Both are variables or both constants, with related values. -/
structure Binding.Related (V : Value → Value → Prop) (a b : Binding) : Prop where
  value : V a.value b.value
  constant_eq : a.constant = b.constant

/-- The chains have equally many scopes, and these bind the same names to related values
one by one. -/
def Chain.Related (V : Value → Value → Prop) (c d : Chain) : Prop :=
  List.Forall₂ (Scope.Corresponds (Binding.Related V)) c.scopes d.scopes

namespace Scope

variable {s t : Scope}

theorem Corresponds.refl
    (hR : ∀ b, R b b)
    (s : Scope) :
    s.Corresponds R s := by
  intro name
  cases s.find? name with
  | none => exact .none
  | some b => exact .some (hR b)

theorem Corresponds.mono
    (h : s.Corresponds R t)
    (hRS : ∀ a b, R a b → S a b) :
    s.Corresponds S t := by
  intro name
  have hfound := h name
  generalize s.find? name = found at hfound ⊢
  generalize t.find? name = found' at hfound ⊢
  cases hfound with
  | none => exact .none
  | some hab => exact .some (hRS _ _ hab)

theorem Corresponds.put
    {a b : Binding}
    (h : s.Corresponds R t)
    (hbinding : R a b)
    (name : String) :
    Corresponds R (Ledger.put name a s) (Ledger.put name b t) := by
  intro other
  by_cases hname : name = other
  · subst hname
    rw [find?, find?, Ledger.get?_put_self, Ledger.get?_put_self]
    exact .some hbinding
  · rw [find?, find?, Ledger.get?_put_of_ne hname, Ledger.get?_put_of_ne hname]
    exact h other

end Scope

namespace Chain

section Scopes

variable {ss ts : List Scope}

/-- The first binding of a name is found in the same scope of both chains. -/
theorem corresponds_findIn?
    (h : List.Forall₂ (Scope.Corresponds R) ss ts)
    (name : String) :
    Option.Rel R (findIn? name ss) (findIn? name ts) := by
  induction h with
  | nil => exact .none
  | @cons s t ss ts hscope _ ih =>
      have hbinding := hscope name
      rw [findIn?, findIn?]
      generalize s.find? name = found at hbinding ⊢
      generalize t.find? name = found' at hbinding ⊢
      cases hbinding with
      | none => exact ih
      | some hab => exact .some hab

theorem corresponds_setIn
    {v w : Value}
    (h : List.Forall₂ (Scope.Corresponds R) ss ts)
    (hset : ∀ a b, R a b → R { a with value := v } { b with value := w })
    (name : String) :
    List.Forall₂ (Scope.Corresponds R) (setIn name v ss) (setIn name w ts) := by
  induction h with
  | nil => exact .nil
  | @cons s t ss ts hscope hrest ih =>
      have hbinding := hscope name
      rw [setIn, setIn]
      generalize s.find? name = found at hbinding ⊢
      generalize t.find? name = found' at hbinding ⊢
      cases hbinding with
      | none => exact .cons hscope ih
      | some hab => exact .cons (hscope.put (hset _ _ hab) name) hrest

end Scopes

variable {c d : Chain}

theorem Related.refl
    (hV : ∀ v, V v v)
    (c : Chain) :
    c.Related V c := by
  exact List.forall₂_same.mpr fun s _ => .refl (fun b => ⟨hV b.value, rfl⟩) s

theorem Related.mono
    (h : c.Related V d)
    (hVW : ∀ v w, V v w → W v w) :
    c.Related W d := by
  exact List.Forall₂.imp (fun _ _ hscope => hscope.mono fun _ _ hab =>
    ⟨hVW _ _ hab.value, hab.constant_eq⟩) h

theorem Related.inner
    (h : c.Related V d) :
    c.inner.Corresponds (Binding.Related V) d.inner := by
  exact (List.forall₂_cons.mp h).1

theorem Related.outer
    (h : c.Related V d) :
    List.Forall₂ (Scope.Corresponds (Binding.Related V)) c.outer d.outer := by
  exact (List.forall₂_cons.mp h).2

theorem Related.set
    {v w : Value}
    (h : c.Related V d)
    (hvalue : V v w)
    (name : String) :
    (c.set name v).Related V (d.set name w) := by
  unfold Related
  rw [scopes_set, scopes_set]
  exact corresponds_setIn h (fun _ _ hab => ⟨hvalue, hab.constant_eq⟩) name

end Chain
end LetLang
