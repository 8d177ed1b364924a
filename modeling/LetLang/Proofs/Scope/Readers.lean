import LetLang.Proofs.Scope.Chain
import LetLang.Proofs.Scope.Forest

/-!
# Who sees a change in a tree of scopes

A scope may lie inside another one together with many others, so a change in one scope can
be seen from many. A name is read in the first scope that binds it on the way to the root,
its binder. A declaration changes what is read under its name wherever the scope in which
it is made becomes the binder. An assignment changes what is read under its name wherever
the binder is the one that is assigned to. Nothing else that is read changes, and what
fails changes nothing at all.
-/

namespace LetLang
namespace Forest

variable {f g : Forest} {i j k : Nat} {name other : String}

/-- The scope binds the name. -/
def binds (f : Forest) (name : String) (i : Nat) : Bool :=
  ((f.scope i).find? name).isSome

/-- The first scope that binds the name on the way from a scope to its root. -/
def binder? (f : Forest) (i : Nat) (name : String) : Option Nat :=
  (f.path i).find? (f.binds name)

/-- A name is read in the first scope that binds it. -/
theorem findIn?_map_scope
    (f : Forest) (name : String) (ks : List Nat) :
    Chain.findIn? name (ks.map f.scope) = (ks.find? (f.binds name)).bind fun k =>
      (f.scope k).find? name := by
  induction ks with
  | nil => rfl
  | cons k ks ih =>
      rw [List.map_cons, List.find?_cons, binds]
      cases hk : (f.scope k).find? name with
      | some b =>
          rw [Chain.findIn?_cons_of_some hk, Option.isSome_some, Option.bind_some, hk]
      | none =>
          rw [Chain.findIn?_cons_of_none hk, Option.isSome_none]
          exact ih

theorem depthIn?_map_scope
    (f : Forest) (name : String) (ks : List Nat) :
    (ks.find? (f.binds name) = none ∧ Chain.depthIn? name (ks.map f.scope) = none) ∨
      ∃ k depth, ks.find? (f.binds name) = some k ∧
        Chain.depthIn? name (ks.map f.scope) = some depth ∧
        ks[depth]? = some k := by
  induction ks with
  | nil => exact Or.inl ⟨rfl, rfl⟩
  | cons k ks ih =>
      rw [List.map_cons, List.find?_cons, Chain.depthIn?, binds]
      cases (f.scope k).find? name with
      | some b => exact Or.inr ⟨k, 0, rfl, rfl, rfl⟩
      | none =>
          rcases ih with ⟨hfind, hdepth⟩ | ⟨l, depth, hfind, hdepth, hget⟩
          · exact Or.inl ⟨hfind, by simp [hdepth]⟩
          · exact Or.inr ⟨l, depth + 1, hfind, by simp [hdepth], hget⟩

/-- The scope that a name is resolved to is its binder. -/
theorem owner_eq
    (f : Forest) (i : Nat) (name : String) :
    f.owner i name = match f.binder? i name with
      | some k => .ok k
      | none => .error (.notDeclared name) := by
  unfold owner binder? Chain.resolve
  rw [scopes_chain]
  rcases f.depthIn?_map_scope name (f.path i)
    with ⟨hfind, hdepth⟩ | ⟨k, depth, hfind, hdepth, hget⟩
  · rw [hfind, hdepth]
  · rw [hfind, hdepth]
    simp [List.getD, hget]

theorem owner_eq_owner_iff
    (hk : f.binder? i name = some k) :
    f.owner j name = f.owner i name ↔ f.binder? j name = some k := by
  rw [owner_eq, owner_eq, hk]
  cases f.binder? j name with
  | none => simp
  | some l => simp

theorem mem_path_of_binder?
    (h : f.binder? i name = some k) :
    k ∈ f.path i := by
  exact List.mem_of_find?_eq_some h

theorem exists_of_binder?
    (h : f.binder? i name = some k) :
    ∃ b, (f.scope k).find? name = some b := by
  have hbinds : f.binds name k = true := List.find?_some h
  exact Option.isSome_iff_exists.mp hbinds

theorem set_scope_self
    (f : Forest) (i : Nat) :
    f.set i (f.scope i) = f := by
  refine eq_of_scopes (size_set f i _) (parent?_set f i _) ?_
  intro k
  by_cases hne : i = k
  · subst hne
    by_cases hi : i < f.size
    · exact scope_set_self hi _
    · rw [scope_of_size_le (by rw [size_set]; omega), scope_of_size_le (by omega)]
  · exact scope_set_of_ne hne _

/-- Scopes that are replaced by themselves stay. -/
theorem setAll_zip_scope
    {ks : List Nat}
    (h : ∀ k ∈ ks, g.scope k = f.scope k) :
    g.setAll (ks.zip (ks.map f.scope)) = g := by
  induction ks with
  | nil => rfl
  | cons k ks ih =>
      obtain ⟨hk, hks⟩ := List.forall_mem_cons.mp h
      rw [List.map_cons, List.zip_cons_cons, setAll_cons, ← hk, set_scope_self]
      exact ih hks

/-- A new innermost scope is written into its own place only. -/
theorem write_inner
    (f : Forest) (i : Nat) (s : Scope) :
    f.write i { f.chain i with inner := s } = f.set i s := by
  rw [write_eq_setAll]
  change (f.set i s).setAll ((f.ancestors i).zip ((f.ancestors i).map f.scope)) = _
  refine setAll_zip_scope ?_
  intro k hk
  exact scope_set_of_ne (Nat.ne_of_gt (lt_of_mem_ancestors hk)) s

/-- A new value along a way is written into the first scope that binds the name. -/
theorem setAll_zip_setIn
    {ks : List Nat} {b : Binding}
    (hnodup : ks.Nodup)
    (hfind : ks.find? (f.binds name) = some k)
    (hb : (f.scope k).find? name = some b)
    (v : Value) :
    f.setAll (ks.zip (Chain.setIn name v (ks.map f.scope))) =
      f.set k (Ledger.put name { b with value := v } (f.scope k)) := by
  induction ks with
  | nil => cases hfind
  | cons l ks ih =>
      obtain ⟨hl, hks⟩ := List.nodup_cons.mp hnodup
      rw [List.find?_cons, binds] at hfind
      rw [List.map_cons, Chain.setIn]
      cases hscope : (f.scope l).find? name with
      | some b' =>
          rw [hscope] at hfind
          obtain rfl : l = k := Option.some.inj hfind
          obtain rfl : b' = b := Option.some.inj (hscope.symm.trans hb)
          rw [List.zip_cons_cons, setAll_cons]
          refine setAll_zip_scope ?_
          intro m hm
          have hne : l ≠ m := by
            rintro rfl
            exact hl hm
          exact scope_set_of_ne hne _
      | none =>
          rw [hscope] at hfind
          rw [List.zip_cons_cons, setAll_cons, set_scope_self]
          exact ih hks hfind

theorem write_set
    {b : Binding}
    (hk : f.binder? i name = some k)
    (hb : (f.scope k).find? name = some b)
    (v : Value) :
    f.write i ((f.chain i).set name v) =
      f.set k (Ledger.put name { b with value := v } (f.scope k)) := by
  rw [write_eq_setAll, Chain.scopes_set, scopes_chain]
  exact setAll_zip_setIn (nodup_path f i) hk hb v

/-- The way to the root stays the same. -/
@[simp] theorem path_set
    (f : Forest) (k : Nat) (s : Scope) (i : Nat) :
    (f.set k s).path i = f.path i := by
  rw [path, path, ancestors_congr (parent?_set f k s)]

/-- A binding that is put into one scope is read where that scope is the binder, and
everything else is read as before. -/
theorem findIn?_set_put
    (hk : k < f.size)
    (name : String) (b : Binding) (ks : List Nat) (other : String) :
    Chain.findIn? other (ks.map (f.set k (Ledger.put name b (f.scope k))).scope) =
      if other = name ∧
          ks.find? ((f.set k (Ledger.put name b (f.scope k))).binds name) = some k then
        some b
      else Chain.findIn? other (ks.map f.scope) := by
  have hself := scope_set_self hk (Ledger.put name b (f.scope k))
  have hothers : ∀ l, k ≠ l →
      (f.set k (Ledger.put name b (f.scope k))).scope l = f.scope l :=
    fun l hl => scope_set_of_ne hl _
  generalize f.set k (Ledger.put name b (f.scope k)) = g at hself hothers ⊢
  induction ks with
  | nil => simp [Chain.findIn?]
  | cons l ks ih =>
      rw [List.map_cons, List.map_cons, List.find?_cons, Chain.findIn?,
        Chain.findIn?, ih, binds]
      by_cases hl : k = l
      · subst hl
        by_cases hname : name = other
        · subst hname
          simp [hself]
        · simp [hself, Ne.symm hname, Scope.find?_put_of_ne hname]
      · rw [hothers l hl]
        by_cases hname : other = name
        · subst hname
          cases (f.scope l).find? other with
          | none => simp
          | some b' => simp [Ne.symm hl]
        · simp [hname]

/-- What can be asked of a scope. -/
inductive Request
  | declare (name : String) (value : Value) (constant : Bool)
  | assign (name : String) (value : Value)
  | lookup (name : String)
  | resolve (name : String)

/-- What a scope answers: a value, or the number of a scope. -/
inductive Answer
  | value (v : Value)
  | scope (i : Nat)

/-- Carries out what is asked of a scope. -/
def serve (i : Nat) : Request → EStateM Fault Forest Answer
  | .declare name v constant =>
      Answer.value <$> within i (Evaluation.declare .unknown name constant v)
  | .assign name v => Answer.value <$> within i (Evaluation.assign .unknown name v)
  | .lookup name => Answer.value <$> within i (Evaluation.lookup .unknown name)
  | .resolve name => fun f =>
    match f.owner i name with
    | .ok k => .ok (.scope k) f
    | .error cause => .error ⟨cause, .unknown⟩ f

theorem serve_declare
    (f : Forest) (i : Nat) (name : String) (v : Value) (constant : Bool) :
    serve i (.declare name v constant) f =
      match (f.chain i).declare name v constant with
      | .ok c => .ok (.value v) (f.write i c)
      | .error cause => .error ⟨cause, .unknown⟩ f := by
  simp only [serve, Functor.map, EStateM.map, within, Evaluation.declare]
  cases (f.chain i).declare name v constant with
  | ok c => rfl
  | error cause => simp only [write_chain]

theorem serve_assign
    (f : Forest) (i : Nat) (name : String) (v : Value) :
    serve i (.assign name v) f =
      match (f.chain i).assign name v with
      | .ok c => .ok (.value v) (f.write i c)
      | .error cause => .error ⟨cause, .unknown⟩ f := by
  simp only [serve, Functor.map, EStateM.map, within, Evaluation.assign]
  cases (f.chain i).assign name v with
  | ok c => rfl
  | error cause => simp only [write_chain]

theorem serve_lookup
    (f : Forest) (i : Nat) (name : String) :
    serve i (.lookup name) f =
      match (f.chain i).lookup name with
      | .ok v => .ok (.value v) f
      | .error cause => .error ⟨cause, .unknown⟩ f := by
  simp only [serve, Functor.map, EStateM.map, within, Evaluation.lookup]
  cases (f.chain i).lookup name with
  | ok v => simp only [write_chain]
  | error cause => simp only [write_chain]

/-- What fails changes nothing. -/
theorem eq_of_serve_error
    {request : Request} {fault : Fault} {f' : Forest}
    (h : serve i request f = .error fault f') :
    f' = f := by
  cases request with
  | declare name v constant =>
      rw [serve_declare] at h
      split at h
      · cases h
      · cases h
        rfl
  | assign name v =>
      rw [serve_assign] at h
      split at h
      · cases h
      · cases h
        rfl
  | lookup name =>
      rw [serve_lookup] at h
      split at h
      · cases h
      · cases h
        rfl
  | resolve name =>
      simp only [serve] at h
      split at h
      · cases h
      · cases h
        rfl

/-- A declaration puts its binding into the scope in which it is made. -/
theorem eq_set_of_serve_declare
    {v : Value} {constant : Bool} {answer : Answer} {f' : Forest}
    (h : serve i (.declare name v constant) f = .ok answer f') :
    f' = f.set i (Ledger.put name ⟨v, constant⟩ (f.scope i)) := by
  rw [serve_declare] at h
  unfold Chain.declare at h
  cases hfind : (f.chain i).inner.find? name with
  | some b =>
      rw [hfind] at h
      cases h
  | none =>
      rw [hfind] at h
      cases h
      exact write_inner f i _

/-- An assignment puts the new value into the binder of its name. -/
theorem exists_of_serve_assign
    {v : Value} {answer : Answer} {f' : Forest}
    (h : serve i (.assign name v) f = .ok answer f') :
    ∃ k b,
      f.binder? i name = some k ∧ (f.scope k).find? name = some b ∧
      f' = f.set k (Ledger.put name { b with value := v } (f.scope k)) := by
  rw [serve_assign] at h
  unfold Chain.assign at h
  have hfind := f.findIn?_map_scope name (f.path i)
  rw [← scopes_chain] at hfind
  cases hk : f.binder? i name with
  | none =>
      rw [binder?] at hk
      rw [hfind, hk] at h
      cases h
  | some k =>
      obtain ⟨b, hb⟩ := exists_of_binder? hk
      refine ⟨k, b, rfl, hb, ?_⟩
      rw [← write_set hk hb v]
      rw [binder?] at hk
      rw [hfind, hk, Option.bind_some, hb] at h
      cases hconstant : b.constant with
      | true =>
          simp only [hconstant, if_true] at h
          cases h
      | false =>
          simp only [hconstant, Bool.false_eq_true, if_false] at h
          cases h
          rfl

/-- What is read after a binding has been put into one scope. -/
theorem lookup_set_put
    (hk : k < f.size)
    (name : String) (b : Binding) (t : Nat) (other : String) :
    ((f.set k (Ledger.put name b (f.scope k))).chain t).lookup other =
      if other = name ∧ (f.set k (Ledger.put name b (f.scope k))).binder? t
        name = some k then .ok b.value
      else (f.chain t).lookup other := by
  have hfind := findIn?_set_put hk name b (f.path t) other
  unfold Chain.lookup binder?
  rw [scopes_chain, scopes_chain, path_set, hfind]
  by_cases hread : other = name ∧
    (f.path t).find? ((f.set k (Ledger.put name b (f.scope k))).binds name) = some k
  · simp only [if_pos hread]
  · simp only [if_neg hread]

/-- A new value makes no scope bind more names or fewer. -/
theorem binder?_set_put
    {b b' : Binding}
    (hb : (f.scope k).find? name = some b)
    (t : Nat) :
    (f.set k (Ledger.put name b' (f.scope k))).binder? t name = f.binder? t name := by
  have hbinds : (f.set k (Ledger.put name b' (f.scope k))).binds name = f.binds name := by
    funext l
    by_cases hl : k = l
    · subst hl
      by_cases hk : k < f.size
      · simp [binds, scope_set_self hk, hb]
      · rw [scope_of_size_le (by omega)] at hb
        cases hb
    · rw [binds, binds, scope_set_of_ne hl]
  rw [binder?, binder?, path_set, hbinds]

end Forest

open Forest

/--
A declaration or an assignment is read by exactly the scopes that resolve the name to the
scope changed. A request that fails changes nothing.
-/
theorem changes_reach_readers
    (f : Forest) {i : Nat}
    (hi : i < f.size) :
    (∀ name v constant answer f', serve i (.declare name v constant) f = .ok answer f' →
      ∀ t other, (f'.chain t).lookup other =
        if other = name ∧ (f'.path t).find? (f'.binds name) = some i then .ok v
          else (f.chain t).lookup other) ∧
    (∀ name v answer f', serve i (.assign name v) f = .ok answer f' →
      ∀ t other, (f'.chain t).lookup other =
        if other = name ∧ f.owner t name = f.owner i name then .ok v
          else (f.chain t).lookup other) ∧
    ∀ request fault f', serve i request f = .error fault f' → f' = f := by
  refine ⟨?_, ?_, fun request fault f' h => eq_of_serve_error h⟩
  · intro name v constant answer f' h t other
    obtain rfl := eq_set_of_serve_declare h
    exact lookup_set_put hi name ⟨v, constant⟩ t other
  · intro name v answer f' h t other
    obtain ⟨k, b, hk, hb, rfl⟩ := exists_of_serve_assign h
    have hsize : k < f.size :=
      Nat.lt_of_le_of_lt (le_of_mem_path (mem_path_of_binder? hk)) hi
    rw [lookup_set_put hsize, binder?_set_put hb]
    simp only [owner_eq_owner_iff hk]

/--
Of two scopes inside the root the first has one more inside. A new `x` is declared in the
first, and from further inside `y` is assigned to in the root.
-/
theorem changes_reach_readers_siblings :
    ∃ f g h : Forest,
      f.members.map Member.parent = [none, some 0, some 1, some 0] ∧
      serve 1 (.declare "x" (.string "b") true) f = .ok (.value (.string "b")) g ∧
      (f.chain 3).lookup "x" = .ok (.string "a") ∧
      [0, 1, 2, 3].map (fun t => (g.chain t).lookup "x") =
        [.ok (.string "a"), .ok (.string "b"), .ok (.string "b"), .ok (.string "a")] ∧
      serve 2 (.assign "y" (.string "c")) g = .ok (.value (.string "c")) h ∧
      (h.chain 3).lookup "y" = .ok (.string "c") ∧
      ∀ fault h', serve 1 (.declare "x" .null false) h = .error fault h' → h' = h := by
  let f : Forest := ⟨[⟨[("x", ⟨.string "a", true⟩), ("y", ⟨.null, false⟩)], none⟩,
    ⟨[], some 0⟩, ⟨[], some 1⟩, ⟨[], some 0⟩]⟩
  let g : Forest := ⟨[⟨[("x", ⟨.string "a", true⟩), ("y", ⟨.null, false⟩)], none⟩,
    ⟨[("x", ⟨.string "b", true⟩)], some 0⟩, ⟨[], some 1⟩, ⟨[], some 0⟩]⟩
  let h : Forest := ⟨[⟨[("x", ⟨.string "a", true⟩), ("y", ⟨.string "c", false⟩)], none⟩,
    ⟨[("x", ⟨.string "b", true⟩)], some 0⟩, ⟨[], some 1⟩, ⟨[], some 0⟩]⟩
  have hf : f.ancestors 1 = [0] := by decide +kernel
  have hg : serve 1 (.declare "x" (.string "b") true) f =
      .ok (.value (.string "b")) g := by
    simp only [serve_declare, chain, write, path, hf]
    rfl
  have hg' : g.ancestors 2 = [1, 0] := by decide +kernel
  have hh : serve 2 (.assign "y" (.string "c")) g = .ok (.value (.string "c")) h := by
    simp only [serve_assign, chain, write, path, hg']
    rfl
  have hbinders : [0, 1, 2, 3].map (fun t => (g.path t).find? (g.binds "x")) =
      [some 0, some 1, some 1, some 0] := by decide +kernel
  have howner : g.owner 3 "y" = g.owner 2 "y" := by decide +kernel
  have hbefore : [0, 3].map (fun t => (f.chain t).lookup "x") =
      [.ok (.string "a"), .ok (.string "a")] := by decide +kernel
  have hdeclared :=
    (changes_reach_readers f (i := 1) (by decide)).1 "x" (.string "b") true _ g hg
  have hassigned :=
    (changes_reach_readers g (i := 2) (by decide)).2.1 "y" (.string "c") _ h hh
  have hfailed :=
    (changes_reach_readers h (i := 1) (by decide)).2.2 (.declare "x" .null false)
  simp only [List.map_cons, List.map_nil, List.cons.injEq, and_true] at hbinders hbefore
  obtain ⟨h0, h1, h2, h3⟩ := hbinders
  refine ⟨f, g, h, rfl, hg, hbefore.2, ?_, hh, ?_, hfailed⟩
  · simp [hdeclared, h0, h1, h2, h3, hbefore]
  · rw [hassigned, if_pos ⟨rfl, howner⟩]

end LetLang
