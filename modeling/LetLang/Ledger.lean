/-!
# Ledgers

A ledger maps keys to entries and remembers the order in which the keys came. Writing an
entry under a key that is already there leaves the key at its place.
-/

namespace LetLang

/-- Entries under distinct keys, in order of arrival. -/
abbrev Ledger (κ α : Type) := List (κ × α)

namespace Ledger

variable {κ α : Type} [DecidableEq κ]

/-- The entry under a key. -/
def get? (key : κ) : Ledger κ α → Option α
  | [] => none
  | (k, a) :: rest => if k = key then some a else get? key rest

/-- Writes an entry under a key: in place if the key is there, and at the end otherwise. -/
def put (key : κ) (entry : α) : Ledger κ α → Ledger κ α
  | [] => [(key, entry)]
  | (k, a) :: rest =>
      if k = key then (key, entry) :: rest else (k, a) :: put key entry rest

/-- The keys in order. -/
def keys (l : Ledger κ α) : List κ :=
  l.map Prod.fst

@[simp] theorem get?_nil (key : κ) : get? key ([] : Ledger κ α) = none := by
  rfl

@[simp] theorem get?_put_self (key : κ) (entry : α) (l : Ledger κ α) :
    get? key (put key entry l) = some entry := by
  induction l with
  | nil => simp [put, get?]
  | cons head rest ih =>
      by_cases h : head.1 = key <;> simp [put, get?, h, ih]

theorem get?_put_of_ne {key other : κ} (h : key ≠ other) (entry : α) (l : Ledger κ α) :
    get? other (put key entry l) = get? other l := by
  induction l with
  | nil => simp [put, get?, h]
  | cons head rest ih =>
      by_cases hk : head.1 = key
      · simp [put, get?, hk, h]
      · by_cases ho : head.1 = other
        · simp [put, get?, ho, h.symm]
        · simp [put, get?, hk, ho, ih]

end Ledger
end LetLang
