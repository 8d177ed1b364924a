import LetLang.Scope.Forest
import Mathlib.Data.List.Forall2

/-!
# Writing into a forest of scopes

The numbers fall along the path from a scope to its root, so no scope is on the path twice.
Writing the chain of a scope back replaces each scope of its path once, and leaves all
other scopes and all parents as they are. A relation that holds between every scope of a
chain and its replacement therefore holds between every scope of the forest and what it
becomes.
-/

namespace LetLang
namespace Forest

variable {f g : Forest} {i j : Nat}

theorem lt_of_mem_ancestors
    (h : j ∈ f.ancestors i) :
    j < i := by
  induction i using Nat.strongRecOn with
  | ind i ih =>
      rw [ancestors] at h
      split at h
      · cases h
      · rename_i p _
        split at h
        · rename_i hp
          rcases List.mem_cons.mp h with rfl | htail
          · exact hp
          · exact Nat.lt_trans (ih p hp htail) hp
        · cases h

theorem nodup_ancestors
    (f : Forest) (i : Nat) :
    (f.ancestors i).Nodup := by
  induction i using Nat.strongRecOn with
  | ind i ih =>
      rw [ancestors]
      split
      · exact List.nodup_nil
      · rename_i p _
        split
        · rename_i hp
          refine List.nodup_cons.mpr ⟨?_, ih p hp⟩
          intro hmem
          exact Nat.lt_irrefl p (lt_of_mem_ancestors hmem)
        · exact List.nodup_nil

theorem nodup_path
    (f : Forest) (i : Nat) :
    (f.path i).Nodup := by
  refine List.nodup_cons.mpr ⟨?_, nodup_ancestors f i⟩
  intro hmem
  exact Nat.lt_irrefl i (lt_of_mem_ancestors hmem)

theorem le_of_mem_path
    (h : j ∈ f.path i) :
    j ≤ i := by
  rcases List.mem_cons.mp h with rfl | hmem
  · exact Nat.le_refl j
  · exact Nat.le_of_lt (lt_of_mem_ancestors hmem)

/-- The path to the root is a matter of the parents alone. -/
theorem ancestors_congr
    (h : ∀ k, f.parent? k = g.parent? k)
    (i : Nat) :
    f.ancestors i = g.ancestors i := by
  induction i using Nat.strongRecOn with
  | ind i ih =>
      rw [ancestors, ancestors, h i]
      split
      · rfl
      · rename_i p _
        split
        · rename_i hp
          rw [ih p hp]
        · rfl

theorem scopes_chain
    (f : Forest) (i : Nat) :
    (f.chain i).scopes = (f.path i).map f.scope := by
  rfl

@[simp] theorem scope_add_empty
    (f : Forest) (parent : Option Nat) (j : Nat) :
    (f.add parent .empty).scope j = f.scope j := by
  simp only [scope, add]
  rcases Nat.lt_trichotomy j f.members.length with hlt | rfl | hgt
  · rw [List.getElem?_append_left hlt]
  · simp
  · rw [List.getElem?_eq_none (by simp; omega), List.getElem?_eq_none (by omega)]

/-- A number that no scope has stands for an empty scope. -/
theorem scope_of_size_le
    (h : f.size ≤ j) :
    f.scope j = .empty := by
  simp [scope, List.getElem?_eq_none h]

@[simp] theorem size_set
    (f : Forest) (i : Nat) (s : Scope) :
    (f.set i s).size = f.size := by
  simp [set, size]

@[simp] theorem parent?_set
    (f : Forest) (i : Nat) (s : Scope) (k : Nat) :
    (f.set i s).parent? k = f.parent? k := by
  simp only [set, parent?, List.getElem?_modify]
  cases f.members[k]? with
  | none => simp
  | some m => by_cases h : i = k <;> simp [h]

theorem scope_set_self
    (h : i < f.size)
    (s : Scope) :
    (f.set i s).scope i = s := by
  simp [set, scope, List.getElem?_eq_getElem h]

theorem scope_set_of_ne
    (h : i ≠ j)
    (s : Scope) :
    (f.set i s).scope j = f.scope j := by
  simp [set, scope, h]

/-- Replaces some scopes, one after the other. -/
def setAll (f : Forest) (entries : List (Nat × Scope)) : Forest :=
  entries.foldl (fun g entry => g.set entry.1 entry.2) f

theorem setAll_cons
    (f : Forest) (entry : Nat × Scope) (entries : List (Nat × Scope)) :
    f.setAll (entry :: entries) = (f.set entry.1 entry.2).setAll entries := by
  rfl

theorem write_eq_setAll
    (f : Forest) (i : Nat) (c : Chain) :
    f.write i c = f.setAll ((f.path i).zip c.scopes) := by
  rfl

@[simp] theorem size_setAll
    (f : Forest) (entries : List (Nat × Scope)) :
    (f.setAll entries).size = f.size := by
  induction entries generalizing f with
  | nil => rfl
  | cons entry entries ih => rw [setAll_cons, ih, size_set]

@[simp] theorem parent?_setAll
    (f : Forest) (entries : List (Nat × Scope)) (k : Nat) :
    (f.setAll entries).parent? k = f.parent? k := by
  induction entries generalizing f with
  | nil => rfl
  | cons entry entries ih => rw [setAll_cons, ih, parent?_set]

theorem scope_setAll_of_not_mem
    {entries : List (Nat × Scope)}
    (h : j ∉ entries.map Prod.fst) :
    (f.setAll entries).scope j = f.scope j := by
  induction entries generalizing f with
  | nil => rfl
  | cons entry entries ih =>
      rw [List.map_cons, List.mem_cons, not_or] at h
      rw [setAll_cons, ih h.2, scope_set_of_ne (Ne.symm h.1)]

theorem scope_setAll_of_mem
    {entries : List (Nat × Scope)} {s : Scope}
    (hnodup : (entries.map Prod.fst).Nodup)
    (hmem : (j, s) ∈ entries)
    (hj : j < f.size) :
    (f.setAll entries).scope j = s := by
  induction entries generalizing f with
  | nil => cases hmem
  | cons entry entries ih =>
      rw [List.map_cons, List.nodup_cons] at hnodup
      rw [setAll_cons]
      rcases List.mem_cons.mp hmem with rfl | htail
      · rw [scope_setAll_of_not_mem hnodup.1, scope_set_self hj]
      · exact ih hnodup.2 htail (by rw [size_set]; exact hj)

@[simp] theorem size_write
    (f : Forest) (i : Nat) (c : Chain) :
    (f.write i c).size = f.size := by
  rw [write_eq_setAll, size_setAll]

@[simp] theorem ancestors_write
    (f : Forest) (i : Nat) (c : Chain) (k : Nat) :
    (f.write i c).ancestors k = f.ancestors k := by
  refine ancestors_congr ?_ k
  intro k
  rw [write_eq_setAll, parent?_setAll]

theorem scope_write_of_not_mem
    {c : Chain}
    (h : j ∉ f.path i) :
    (f.write i c).scope j = f.scope j := by
  rw [write_eq_setAll]
  refine scope_setAll_of_not_mem ?_
  intro hmem
  obtain ⟨⟨k, s⟩, hzip, rfl⟩ := List.mem_map.mp hmem
  exact h (List.of_mem_zip hzip).1

/-- Each scope of the path is replaced by the scope of the chain at the same place. -/
theorem scope_write_getElem
    {c : Chain} {k : Nat}
    (hlength : c.scopes.length = (f.path i).length)
    (hk : k < (f.path i).length)
    (hsize : (f.path i)[k] < f.size) :
    (f.write i c).scope (f.path i)[k] = c.scopes[k] := by
  have hkeys : ((f.path i).zip c.scopes).map Prod.fst = f.path i :=
    List.map_fst_zip (Nat.le_of_eq hlength.symm)
  rw [write_eq_setAll]
  refine scope_setAll_of_mem ?_ ?_ hsize
  · rw [hkeys]
    exact nodup_path f i
  · rw [List.mem_iff_getElem]
    exact ⟨k, by rw [List.length_zip]; omega, List.getElem_zip⟩

/-- Writing to a number that no scope has changes nothing. -/
theorem scope_write_of_size_le
    (hi : f.size ≤ i)
    (c : Chain) (j : Nat) :
    (f.write i c).scope j = f.scope j := by
  by_cases hj : j < f.size
  · have hpath : f.path i = [i] := by
      have hparent : f.parent? i = none := by
        simp [parent?, List.getElem?_eq_none hi]
      rw [path, ancestors, hparent]
    refine scope_write_of_not_mem ?_
    rw [hpath, List.mem_singleton]
    omega
  · rw [scope_of_size_le (by rw [size_write]; omega), scope_of_size_le (by omega)]

/-- A forest is its scopes and their parents. -/
theorem eq_of_scopes
    (hsize : f.size = g.size)
    (hparent : ∀ k, f.parent? k = g.parent? k)
    (hscope : ∀ k, f.scope k = g.scope k) :
    f = g := by
  rcases f with ⟨ms⟩
  rcases g with ⟨ns⟩
  refine congrArg Forest.mk (List.ext_getElem hsize ?_)
  intro k hk hk'
  have hp := hparent k
  have hs := hscope k
  simp only [parent?, scope, List.getElem?_eq_getElem hk, List.getElem?_eq_getElem hk',
    Option.bind_some] at hp hs
  exact congrArg₂ Member.mk hs hp

/-- A scope sees the chain that has been written for it. -/
theorem chain_write
    {c : Chain}
    (hi : i < f.size)
    (hlength : c.scopes.length = (f.chain i).scopes.length) :
    (f.write i c).chain i = c := by
  rw [scopes_chain, List.length_map] at hlength
  have hpath : (f.write i c).path i = f.path i := by
    rw [path, path, ancestors_write]
  have hscopes : ((f.write i c).chain i).scopes = c.scopes := by
    rw [scopes_chain, hpath]
    refine List.ext_getElem (by rw [List.length_map, hlength]) ?_
    intro k hk _
    rw [List.length_map] at hk
    rw [List.getElem_map]
    exact scope_write_getElem hlength hk
      (Nat.lt_of_le_of_lt (le_of_mem_path (List.getElem_mem hk)) hi)
  rcases c with ⟨inner, outer⟩
  obtain ⟨hinner, houter⟩ := List.cons.inj hscopes
  exact congrArg₂ Chain.mk hinner houter

theorem write_chain
    (f : Forest) (i : Nat) :
    f.write i (f.chain i) = f := by
  refine eq_of_scopes (size_write f i _) (fun k =>
    by rw [write_eq_setAll, parent?_setAll]) ?_
  intro j
  by_cases hj : j < f.size
  · by_cases hmem : j ∈ f.path i
    · obtain ⟨k, hk, rfl⟩ := List.mem_iff_getElem.mp hmem
      have hlength : (f.chain i).scopes.length = (f.path i).length := by
        rw [scopes_chain, List.length_map]
      rw [scope_write_getElem hlength hk hj]
      simp only [scopes_chain, List.getElem_map]
    · exact scope_write_of_not_mem hmem
  · rw [scope_of_size_le (by rw [size_write]; omega), scope_of_size_le (by omega)]

/-- Of two chains that are written for one scope the second remains. -/
theorem write_write
    (c : Chain) {d : Chain}
    (hd : d.scopes.length = (f.chain i).scopes.length) :
    (f.write i c).write i d = f.write i d := by
  have hpath : (f.write i c).path i = f.path i := by
    rw [path, path, ancestors_write]
  rw [scopes_chain, List.length_map] at hd
  refine eq_of_scopes (by rw [size_write, size_write, size_write]) ?_ ?_
  · intro k
    simp only [write_eq_setAll, parent?_setAll]
  · intro j
    by_cases hj : j < f.size
    · by_cases hmem : j ∈ f.path i
      · obtain ⟨k, hk, rfl⟩ := List.mem_iff_getElem.mp hmem
        have hsecond := scope_write_getElem (f := f.write i c) (i := i) (c := d) (k := k)
        simp only [hpath, size_write] at hsecond
        rw [hsecond hd hk hj, scope_write_getElem hd hk hj]
      · have hmem' : j ∉ (f.write i c).path i := by
          rw [hpath]
          exact hmem
        rw [scope_write_of_not_mem hmem', scope_write_of_not_mem hmem,
          scope_write_of_not_mem hmem]
    · rw [scope_of_size_le (by rw [size_write, size_write]; omega),
        scope_of_size_le (by rw [size_write]; omega)]

/-- What holds between the scopes of a chain and their replacements holds between all
scopes and what they become. -/
theorem rel_scope_write
    {R : Scope → Scope → Prop} {c : Chain}
    (hrefl : ∀ s, R s s)
    (h : List.Forall₂ R (f.chain i).scopes c.scopes)
    (j : Nat) :
    R (f.scope j) ((f.write i c).scope j) := by
  rw [scopes_chain, List.forall₂_map_left_iff] at h
  by_cases hj : j < f.size
  · by_cases hmem : j ∈ f.path i
    · obtain ⟨k, hk, rfl⟩ := List.mem_iff_getElem.mp hmem
      rw [scope_write_getElem h.length_eq.symm hk hj]
      exact (List.forall₂_iff_get.mp h).2 k hk (by rw [← h.length_eq]; exact hk)
    · rw [scope_write_of_not_mem hmem]
      exact hrefl _
  · rw [scope_of_size_le (by omega), scope_of_size_le (by rw [size_write]; omega)]
    exact hrefl _

end Forest
end LetLang
