import LetLang.Proofs.Evaluation.Recording
import LetLang.Proofs.Scope.Forest
import Mathlib.Data.List.Nodup

/-!
# Bindings endure

Whatever is done to a tree of scopes, and whether it succeeds or fails, no name is ever
unbound, no constant ever changes its value or becomes a variable, and no variable becomes
a constant. A run of actions is cut into moves: each move encloses a new scope or makes one
change, and the changes inside an evaluation are those of its journal. One move keeps every
binding of every scope, so all moves of a run do, between any two moments of the run.
-/

namespace LetLang
namespace Ledger

variable {κ α : Type} [DecidableEq κ]

theorem mem_keys_put
    (key : κ) (entry : α) (l : Ledger κ α) (k : κ) :
    k ∈ keys (put key entry l) ↔ k = key ∨ k ∈ keys l := by
  induction l with
  | nil => simp [put, keys]
  | cons head rest ih =>
      by_cases h : head.1 = key
      · simp [put, keys, h]
      · have ih' : k ∈ (put key entry rest).map Prod.fst ↔ k = key ∨
            k ∈ rest.map Prod.fst := ih
        simp only [put, keys, if_neg h, List.map_cons, List.mem_cons, ih']
        constructor
        · rintro (hk | hk | hk)
          · exact Or.inr (Or.inl hk)
          · exact Or.inl hk
          · exact Or.inr (Or.inr hk)
        · rintro (hk | hk | hk)
          · exact Or.inr (Or.inl hk)
          · exact Or.inl hk
          · exact Or.inr (Or.inr hk)

/-- Writing an entry doubles no key. -/
theorem nodup_keys_put
    {l : Ledger κ α}
    (h : (keys l).Nodup)
    (key : κ) (entry : α) :
    (keys (put key entry l)).Nodup := by
  induction l with
  | nil => simp [put, keys]
  | cons head rest ih =>
      obtain ⟨hhead, hrest⟩ := List.nodup_cons.mp h
      by_cases hk : head.1 = key
      · simp only [put, if_pos hk]
        rw [← hk]
        exact h
      · simp only [put, if_neg hk]
        refine List.nodup_cons.mpr ⟨?_, ih hrest⟩
        intro hmem
        rcases (mem_keys_put key entry rest head.1).mp hmem with heq | hmem
        · exact hk heq
        · exact hhead hmem

theorem get?_of_mem
    {l : Ledger κ α} {key : κ} {entry : α}
    (h : (keys l).Nodup)
    (hmem : (key, entry) ∈ l) :
    get? key l = some entry := by
  induction l with
  | nil => cases hmem
  | cons head rest ih =>
      obtain ⟨hhead, hrest⟩ := List.nodup_cons.mp h
      rcases List.mem_cons.mp hmem with rfl | htail
      · simp [get?]
      · have hne : head.1 ≠ key := by
          rintro rfl
          exact hhead (List.mem_map.mpr ⟨_, htail, rfl⟩)
        simp [get?, hne, ih hrest htail]

end Ledger

namespace Scope

/-- The names of the constants of a scope. -/
def constants (s : Scope) : List String :=
  (s.filter fun entry => entry.2.constant).map Prod.fst

/-- Every binding of the first scope is still there in the second: a constant with its
value, a variable with any value. -/
def Endures (s t : Scope) : Prop :=
  ∀ name b, s.find? name = some b →
    ∃ b', t.find? name = some b' ∧ b'.constant = b.constant ∧
      (b.constant = true → b'.value = b.value)

theorem Endures.refl
    (s : Scope) :
    s.Endures s := by
  intro name b hb
  exact ⟨b, hb, rfl, fun _ => rfl⟩

theorem Endures.trans
    {s t u : Scope}
    (hst : s.Endures t)
    (htu : t.Endures u) :
    s.Endures u := by
  intro name b hb
  obtain ⟨b₁, hb₁, hconstant₁, hvalue₁⟩ := hst name b hb
  obtain ⟨b₂, hb₂, hconstant₂, hvalue₂⟩ := htu name b₁ hb₁
  refine ⟨b₂, hb₂, hconstant₂.trans hconstant₁, ?_⟩
  intro hconstant
  rw [hvalue₂ (hconstant₁.trans hconstant), hvalue₁ hconstant]

/-- A new binding touches no other one. -/
theorem endures_put_of_none
    {s : Scope} {name : String}
    (h : s.find? name = none)
    (b : Binding) :
    s.Endures (Ledger.put name b s) := by
  intro other b' hb'
  have hne : name ≠ other := by
    rintro rfl
    rw [h] at hb'
    cases hb'
  refine ⟨b', ?_, rfl, fun _ => rfl⟩
  exact (Ledger.get?_put_of_ne hne b s).trans hb'

/-- A new value for a variable touches no other binding, and the variable remains one. -/
theorem endures_put_of_variable
    {s : Scope} {name : String} {b : Binding}
    (h : s.find? name = some b)
    (hvariable : b.constant = false)
    (v : Value) :
    s.Endures (Ledger.put name { b with value := v } s) := by
  intro other b' hb'
  by_cases hname : name = other
  · subst hname
    rw [h] at hb'
    cases hb'
    refine ⟨{ b with value := v }, Ledger.get?_put_self name _ s, rfl, ?_⟩
    intro hconstant
    rw [hvariable] at hconstant
    cases hconstant
  · exact ⟨b', (Ledger.get?_put_of_ne hname _ s).trans hb', rfl, fun _ => rfl⟩

/-- The bindings endure, and no name comes to be there twice. -/
def Kept (s t : Scope) : Prop :=
  s.Endures t ∧ ((Ledger.keys s).Nodup → (Ledger.keys t).Nodup)

theorem Kept.refl
    (s : Scope) :
    s.Kept s := by
  exact ⟨.refl s, id⟩

theorem Kept.trans
    {s t u : Scope}
    (hst : s.Kept t)
    (htu : t.Kept u) :
    s.Kept u := by
  exact ⟨hst.1.trans htu.1, htu.2 ∘ hst.2⟩

theorem find?_of_mem_constants
    {s : Scope} {name : String}
    (h : (Ledger.keys s).Nodup)
    (hname : name ∈ s.constants) :
    ∃ v, s.find? name = some ⟨v, true⟩ := by
  obtain ⟨⟨key, v, constant⟩, hmem, rfl⟩ := List.mem_map.mp hname
  obtain ⟨hentry, hconstant⟩ := List.mem_filter.mp hmem
  obtain rfl : constant = true := hconstant
  exact ⟨v, Ledger.get?_of_mem h hentry⟩

end Scope

namespace Chain

open Scope

/-- Assigning to a variable keeps the bindings of all scopes. -/
theorem kept_setIn
    {name : String} {scopes : List Scope} {b : Binding}
    (h : findIn? name scopes = some b)
    (hvariable : b.constant = false)
    (v : Value) :
    List.Forall₂ Kept scopes (setIn name v scopes) := by
  induction scopes with
  | nil => exact .nil
  | cons s rest ih =>
      rw [setIn]
      cases hs : s.find? name with
      | some b' =>
          rw [findIn?, hs] at h
          cases h
          exact .cons ⟨endures_put_of_variable hs hvariable v, fun hnodup =>
            Ledger.nodup_keys_put hnodup _ _⟩
            (List.forall₂_same.mpr fun t _ => .refl t)
      | none =>
          rw [findIn?, hs, Option.none_or] at h
          exact .cons (.refl s) (ih h)

/-- Every change that can be made keeps the bindings of all scopes. -/
theorem kept_make
    {c c' : Chain} {change : Change}
    (h : c.make change = .ok c') :
    List.Forall₂ Kept c.scopes c'.scopes := by
  cases change with
  | declared name value constant =>
      simp only [make, declare] at h
      split at h
      · cases h
      · rename_i hnone
        cases h
        exact .cons ⟨endures_put_of_none hnone _, fun hnodup =>
          Ledger.nodup_keys_put hnodup _ _⟩
          (List.forall₂_same.mpr fun t _ => .refl t)
  | assigned name value =>
      simp only [make, assign] at h
      split at h
      · cases h
      · rename_i b hfind
        split at h
        · cases h
        · rename_i hvariable
          cases h
          rw [scopes_set]
          exact kept_setIn hfind (Bool.eq_false_iff.mpr hvariable) value

theorem length_scopes_of_make
    {c c' : Chain} {change : Change}
    (h : c.make change = .ok c') :
    c'.scopes.length = c.scopes.length := by
  exact (kept_make h).length_eq.symm

theorem Replays.length_scopes
    {c c' : Chain} {changes : List Change}
    (h : c.Replays changes c') :
    c'.scopes.length = c.scopes.length := by
  induction h with
  | nil c => rfl
  | cons hmake _ ih => rw [ih, length_scopes_of_make hmake]

end Chain

namespace Forest

open Scope

/-- What is done in a scope. -/
inductive Task
  | declare (name : String) (value : Value) (constant : Bool)
  | assign (name : String) (value : Value)
  | lookup (name : String)
  | evaluate (node : Node)

namespace Task

/-- Carries the task out. -/
def run : Task → Evaluation Value
  | declare name value constant => Evaluation.declare .unknown name constant value
  | assign name value => Evaluation.assign .unknown name value
  | lookup name => Evaluation.lookup .unknown name
  | evaluate node => node.evaluate

/-- Carries the task out and puts the changes down. -/
def record : Task → Recorded Value
  | declare name value constant =>
      Recorded.make .unknown (.declared name value constant) value
  | assign name value => Recorded.make .unknown (.assigned name value) value
  | lookup name => Recorded.lookup .unknown name
  | evaluate node => Recorded.evaluate node

theorem faithful_record
    (task : Task) :
    Recorded.Faithful task.record task.run := by
  cases task with
  | declare name value constant =>
      exact Recorded.faithful_declare .unknown name constant value
  | assign name value => exact Recorded.faithful_assign .unknown name value
  | lookup name => exact Recorded.faithful_lookup .unknown name
  | evaluate node => exact Recorded.faithful_evaluate node

end Task

/-- What is done to a tree of scopes: a new scope inside another one, or a task in one of
the scopes. -/
inductive Action
  | enclose (parent : Nat)
  | work (i : Nat) (task : Task)

/-- The tree that an action leaves behind, whether it succeeds or fails. -/
def perform (f : Forest) : Action → Forest
  | .enclose parent => f.add (some parent) .empty
  | .work i task => leaves (within i task.run f)

/-- The smallest steps of a run. -/
inductive Move
  | enclose (parent : Nat)
  | change (i : Nat) (change : Change)

/-- The tree after a move. -/
def move (f : Forest) : Move → Forest
  | .enclose parent => f.add (some parent) .empty
  | .change i change =>
    match (f.chain i).make change with
    | .ok c => f.write i c
    | .error _ => f

/-- The tree after moves. -/
def after (f : Forest) (moves : List Move) : Forest :=
  moves.foldl move f

/-- The moves that an action consists of. -/
def movesOf (f : Forest) : Action → List Move
  | .enclose parent => [.enclose parent]
  | .work i task =>
      if i < f.size then (task.record.changes (f.chain i)).map (.change i) else []

/-- The moves that a run of actions consists of. -/
def movesOfAll (f : Forest) : List Action → List Move
  | [] => []
  | action :: actions => f.movesOf action ++ (f.perform action).movesOfAll actions

/-- The tree in which programs start: the built-in constants, and no scope inside. -/
def root (version : String) : Forest :=
  empty.add none (Scope.builtins version)

@[simp] theorem after_nil
    (f : Forest) :
    f.after [] = f := by
  rfl

@[simp] theorem after_cons
    (f : Forest) (m : Move) (ms : List Move) :
    f.after (m :: ms) = (f.move m).after ms := by
  rfl

@[simp] theorem after_append
    (f : Forest) (ms ns : List Move) :
    f.after (ms ++ ns) = (f.after ms).after ns := by
  exact List.foldl_append

/-- A move keeps the bindings of every scope. -/
theorem kept_move
    (f : Forest) (m : Move) (j : Nat) :
    (f.scope j).Kept ((f.move m).scope j) := by
  cases m with
  | enclose parent =>
      rw [move, scope_add_empty]
      exact .refl _
  | change i change =>
      rw [move]
      cases hmake : (f.chain i).make change with
      | ok c => exact rel_scope_write Kept.refl (Chain.kept_make hmake) j
      | error cause => exact .refl _

/-- Moves keep the bindings of every scope. -/
theorem kept_after
    (f : Forest) (ms : List Move) (j : Nat) :
    (f.scope j).Kept ((f.after ms).scope j) := by
  induction ms generalizing f with
  | nil => exact .refl _
  | cons m ms ih => exact (kept_move f m j).trans (ih (f.move m))

/-- The move is to be made in a scope that is there, and can be made. -/
def Allows (f : Forest) : Move → Prop
  | .enclose _ => True
  | .change i change => i < f.size ∧ ∃ c, (f.chain i).make change = .ok c

/-- Each of the moves can be made when its turn comes. -/
def AllowsAll (f : Forest) : List Move → Prop
  | [] => True
  | m :: ms => f.Allows m ∧ (f.move m).AllowsAll ms

theorem allowsAll_append
    {f : Forest} {ms ns : List Move} :
    f.AllowsAll (ms ++ ns) ↔ f.AllowsAll ms ∧ (f.after ms).AllowsAll ns := by
  induction ms generalizing f with
  | nil => simp [AllowsAll]
  | cons m ms ih => simp [AllowsAll, ih, and_assoc]

/-- The changes of a chain, made in the tree, lead to the tree with the changed chain. -/
theorem after_changes
    {f : Forest} {i : Nat} {c c' : Chain} {changes : List Change}
    (hi : i < f.size)
    (hchain : f.chain i = c)
    (h : c.Replays changes c') :
    f.AllowsAll (changes.map (.change i)) ∧
      f.after (changes.map (.change i)) = f.write i c' := by
  induction h generalizing f with
  | nil c =>
      subst hchain
      exact ⟨trivial, (write_chain f i).symm⟩
  | @cons c c₁ c₂ change changes hmake hrest ih =>
      subst hchain
      have hmove : f.move (.change i change) = f.write i c₁ := by
        rw [move, hmake]
      have hlength := Chain.length_scopes_of_make hmake
      have hlast : c₂.scopes.length = (f.chain i).scopes.length :=
        hrest.length_scopes.trans hlength
      obtain ⟨hallows, hafter⟩ :=
        ih (f := f.write i c₁) (by rw [size_write]; exact hi) (chain_write hi hlength)
      rw [write_write c₁ hlast] at hafter
      rw [List.map_cons, after_cons, hmove]
      refine ⟨⟨⟨hi, c₁, hmake⟩, ?_⟩, hafter⟩
      rw [hmove]
      exact hallows

theorem leaves_within
    {α : Type} (i : Nat) (act : Evaluation α) (f : Forest) :
    leaves (within i act f) = f.write i (leaves (act (f.chain i))) := by
  simp only [within]
  cases act (f.chain i) <;> rfl

/-- An action is made of its moves. -/
theorem after_movesOf
    (f : Forest) (action : Action) :
    f.AllowsAll (f.movesOf action) ∧ f.after (f.movesOf action) = f.perform action := by
  cases action with
  | enclose parent => exact ⟨⟨trivial, trivial⟩, rfl⟩
  | work i task =>
      rw [perform, leaves_within, movesOf]
      split
      · rename_i hi
        exact after_changes hi rfl (task.faithful_record.replays_changes (f.chain i))
      · rename_i hi
        refine ⟨trivial, ?_⟩
        refine eq_of_scopes (size_write f i _).symm ?_ ?_
        · intro k
          rw [write_eq_setAll, parent?_setAll, after_nil]
        · intro k
          rw [scope_write_of_size_le (by omega), after_nil]

/-- A run of actions is made of its moves. -/
theorem after_movesOfAll
    (f : Forest) (actions : List Action) :
    f.AllowsAll (f.movesOfAll actions) ∧
      f.after (f.movesOfAll actions) = actions.foldl perform f := by
  induction actions generalizing f with
  | nil => exact ⟨trivial, rfl⟩
  | cons action actions ih =>
      obtain ⟨hallows, hafter⟩ := after_movesOf f action
      obtain ⟨hallows', hafter'⟩ := ih (f.perform action)
      rw [movesOfAll, allowsAll_append, after_append, hafter]
      exact ⟨⟨hallows, hallows'⟩, hafter'⟩

theorem movesOfAll_append
    (f : Forest) (before after : List Action) :
    f.movesOfAll (before ++ after) = f.movesOfAll before ++
      (before.foldl perform f).movesOfAll after := by
  induction before generalizing f with
  | nil => rfl
  | cons action before ih => simp [movesOfAll, ih]

/-- What has been declared is bound. -/
theorem find?_move_declared
    {f : Forest} {i : Nat} {name : String} {v : Value} {constant : Bool}
    (h : f.Allows (.change i (.declared name v constant))) :
    ((f.move (.change i (.declared name v constant))).scope i).find?
      name = some ⟨v, constant⟩ := by
  obtain ⟨hi, c, hmake⟩ := h
  have hchain := chain_write hi (Chain.length_scopes_of_make hmake)
  have hscope : (f.write i c).scope i = c.inner := congrArg Chain.inner hchain
  simp only [move, hmake, hscope]
  simp only [Chain.make, Chain.declare] at hmake
  split at hmake
  · cases hmake
  · cases hmake
    exact Ledger.get?_put_self name _ _

theorem nodup_keys_root
    (version : String) (j : Nat) :
    (Ledger.keys ((root version).scope j)).Nodup := by
  cases j with
  | zero => simp [root, scope, add, empty, Scope.builtins, Ledger.keys]
  | succ j =>
      rw [scope_of_size_le (by simp [root, size, add, empty])]
      exact List.nodup_nil

/--
In every scope and at every later moment of a run, a binding stays a constant with its
value or a variable. The built-in constants keep their values.
-/
theorem bindings_endure
    (version : String) (actions : List Action) :
    (∀ before after, actions = before ++ after →
      (∃ late,
        (root version).movesOfAll actions = (root version).movesOfAll before ++ late) ∧
        before.foldl perform (root version) =
          (root version).after ((root version).movesOfAll before)) ∧
    ∀ early between late, (root version).movesOfAll actions = early ++ between ++ late →
      (∀ i, ∀ name ∈ (((root version).after early).scope i).constants,
        ∃ v, (((root version).after early).scope i).find? name = some ⟨v, true⟩) ∧
      (∀ i, (((root version).after early).scope i).Endures
        (((root version).after (early ++ between)).scope i)) ∧
      (∀ i name v constant, between.head? = some (.change i (.declared name v constant)) →
        ∃ b, (((root version).after (early ++ between)).scope i).find? name = some b ∧
          b.constant = constant ∧ (constant = true → b.value = v)) ∧
      ∀ name b, (name, b) ∈ Scope.builtins version →
        (((root version).after early).scope 0).find? name = some b := by
  obtain ⟨hallows, _⟩ := after_movesOfAll (root version) actions
  constructor
  · rintro before after rfl
    refine ⟨⟨_, movesOfAll_append (root version) before after⟩, ?_⟩
    exact (after_movesOfAll (root version) before).2.symm
  · intro early between late hmoves
    rw [hmoves, allowsAll_append, allowsAll_append] at hallows
    refine ⟨?_, ?_, ?_, ?_⟩
    · intro i name hname
      exact find?_of_mem_constants
        ((kept_after (root version) early i).2 (nodup_keys_root version i)) hname
    · intro i
      rw [after_append]
      exact (kept_after _ between i).1
    · intro i name v constant hhead
      obtain ⟨rest, rfl⟩ := List.head?_eq_some_iff.mp hhead
      have hbound := find?_move_declared hallows.1.2.1
      rw [after_append, after_cons]
      exact (kept_after _ rest i).1 name _ hbound
    · intro name b hmem
      have hconstant : b.constant = true := by
        simp only [Scope.builtins, List.mem_cons, Prod.mk.injEq, List.not_mem_nil,
          or_false] at hmem
        rcases hmem with ⟨_, rfl⟩ | ⟨_, rfl⟩ | ⟨_, rfl⟩ | ⟨_,
          rfl⟩ | ⟨_, rfl⟩ | ⟨_, rfl⟩ <;> rfl
      have hroot : ((root version).scope 0).find? name = some b :=
        Ledger.get?_of_mem (nodup_keys_root version 0) hmem
      obtain ⟨b', hb', hconstant', hvalue'⟩ :=
        (kept_after (root version) early 0).1 name b hroot
      rw [hb']
      rcases b with ⟨value, constant⟩
      rcases b' with ⟨value', constant'⟩
      obtain rfl : constant' = constant := hconstant'
      obtain rfl : value' = value := hvalue' hconstant
      rfl

/-- A constant that hides a built-in one in an inner scope cannot be assigned to either,
and leaves the other one alone. -/
theorem bindings_endure_hidden :
    ∃ actions,
      (root "1").movesOfAll actions =
        [.enclose 0, .change 1 (.declared "pi" (.string "a") true)] ∧
      (∃ b,
        (((root "1").after
          [.enclose 0, .change 1 (.declared "pi" (.string "a") true)]).scope 1).find?
            "pi" = some b ∧
        b.constant = true ∧ b.value = .string "a") ∧
      (((root "1").after
        [.enclose 0, .change 1 (.declared "pi" (.string "a") true)]).scope 0).find?
          "null" = some ⟨.null, true⟩ := by
  have hmoves : (root "1").movesOfAll
      [.enclose 0, .work 1 (.evaluate (.program .unknown
        [.declaration .start "pi" .start true (some (.string .start "a")),
          .assignment .start (.identifier .start "pi") (.string .start "b")]))] =
      [.enclose 0, .change 1 (.declared "pi" (.string "a") true)] := rfl
  obtain ⟨_, _, hdeclared, _⟩ :=
    (bindings_endure "1" _).2 [.enclose 0]
      [.change 1 (.declared "pi" (.string "a") true)] [] hmoves
  obtain ⟨b, hb, hconstant, hvalue⟩ := hdeclared 1 "pi" (.string "a") true rfl
  obtain ⟨_, _, _, hroot⟩ :=
    (bindings_endure "1" _).2 [.enclose 0,
      .change 1 (.declared "pi" (.string "a") true)] [] [] hmoves
  exact ⟨_, hmoves, ⟨b, hb, hconstant, hvalue rfl⟩,
    hroot "null" ⟨.null, true⟩ (by simp [Scope.builtins])⟩

end Forest
end LetLang
