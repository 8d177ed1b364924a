import LetLang.Proofs.Scope.Endurance
import LetLang.Workspace

/-!
# The queue of a workspace

A workspace is used by calls that add a text under a line number, run the queue or take a
value; any of them may fail. A text that is read under a number that is not queued creates
an entry, and under a number that is queued it updates one. Whatever the calls are, the
runs take the entries in order of creation, each once, and evaluate the text that was read
last under the number. A run that fails loses the entry that failed and no other, and the
values wait in order of evaluation.

The calls leave notes: the numbers of created entries, the entries taken and the values
popped. What one call adds to the notes balances what it does to the queue, the scopes and
the values, and so do the notes of all calls of a history.
-/

namespace LetLang
namespace Ledger

variable {κ α : Type} [DecidableEq κ]

/-- Writing an entry under a new key appends the key. -/
theorem keys_put
    (key : κ) (entry : α) (l : Ledger κ α) :
    keys (put key entry l) = keys l ++ if key ∈ keys l then [] else [key] := by
  induction l with
  | nil => rfl
  | cons first rest ih =>
      by_cases hkey : first.1 = key
      · simp [put, keys, hkey]
      · have hother : ¬ key = first.1 := fun h => hkey h.symm
        simp only [put, if_neg hkey, keys, List.map_cons, List.cons_append, List.mem_cons,
          hother, false_or, List.cons.injEq, true_and]
        exact ih

/-- Writing an entry replaces the one under its key and no other. -/
theorem mem_put
    {key : κ} {entry : α} {l : Ledger κ α} {e : κ × α}
    (hnodup : (keys l).Nodup)
    (h : e ∈ put key entry l) :
    e = (key, entry) ∨ e.1 ≠ key ∧ e ∈ l := by
  induction l with
  | nil => exact Or.inl (List.mem_singleton.mp h)
  | cons first rest ih =>
      obtain ⟨hfirst, hrest⟩ := List.nodup_cons.mp hnodup
      by_cases hkey : first.1 = key
      · simp only [put, if_pos hkey] at h
        rcases List.mem_cons.mp h with rfl | hmem
        · exact Or.inl rfl
        · refine Or.inr ⟨?_, List.mem_cons_of_mem _ hmem⟩
          intro he
          exact hfirst (hkey.trans he.symm ▸ List.mem_map_of_mem hmem)
      · simp only [put, if_neg hkey] at h
        rcases List.mem_cons.mp h with rfl | hmem
        · exact Or.inr ⟨hkey, List.mem_cons_self⟩
        · exact (ih hrest hmem).imp id fun hold => ⟨hold.1, List.mem_cons_of_mem _ hold.2⟩

end Ledger

namespace Workspace

/-- One use of a workspace. -/
inductive Call
  | add (source : String) (line : Int)
  | run
  | pop

/-- The workspace after a call, whether the call succeeds or fails. -/
def call (w : Workspace) : Call → Workspace
  | .add source line => leaves (add source line w)
  | .run => leaves (run w)
  | .pop => (w.pop?.map Prod.snd).getD w

/-- The workspace after calls. -/
def after (w : Workspace) (calls : List Call) : Workspace :=
  calls.foldl call w

/-- The number of the entry that a call creates: a text is read under it, and it is
not queued. -/
def created (w : Workspace) : Call → List Int
  | .add source line =>
    match parse source with
    | .ok _ => if line ∈ Ledger.keys w.queue then [] else [line]
    | .error _ => []
  | _ => []

/-- The entries that a run takes from the head of the queue. -/
def taken (w : Workspace) : Call → Ledger Int Entry
  | .run => w.queue.take (w.queue.length - (w.call .run).queue.length)
  | _ => []

/-- The value that a call pops. -/
def popped (w : Workspace) : Call → List Value
  | .pop => (w.pop?.map Prod.fst).toList
  | _ => []

/-- The notes of all calls of a history, each made in the state in which the call finds
the workspace. -/
def along {α : Type} (note : Workspace → Call → List α) : Workspace → List Call → List α
  | _, [] => []
  | w, c :: later => note w c ++ along note (w.call c) later

/-- The entry that a call would make of its text under a line number. -/
def added? (line : Int) : Call → Option Entry
  | .add source n =>
    match parse source with
    | .ok program => if n = line then some ⟨source, program⟩ else none
    | .error _ => none
  | _ => none

/-- What was read last under a line number. -/
def latest (line : Int) (calls : List Call) : Option Entry :=
  (calls.filterMap (added? line)).getLast?

/-- The programs of entries. -/
def programs (entries : Ledger Int Entry) : List Node :=
  entries.map fun e => e.2.program

/-- Programs are evaluated in order, whether they fail or not. The values of those that do
not fail are collected. -/
inductive Evaluated : Chain → List Node → List Value → Chain → Prop
  | nil {c : Chain} : Evaluated c [] [] c
  | value {c c₁ c' : Chain} {n : Node} {v : Value} {ns : List Node} {vs : List Value} :
      n.evaluate c = .ok v c₁ → Evaluated c₁ ns vs c' → Evaluated c (n :: ns) (v :: vs) c'
  | failure {c c₁ c' : Chain} {n : Node} {fault : Fault} {ns :
      List Node} {vs : List Value} :
      n.evaluate c = .error fault c₁ → Evaluated c₁ ns vs c' → Evaluated c (n :: ns) vs c'

theorem Evaluated.append
    {c c₁ c' : Chain} {ns ms : List Node} {vs us : List Value}
    (h : Evaluated c ns vs c₁)
    (h' : Evaluated c₁ ms us c') :
    Evaluated c (ns ++ ms) (vs ++ us) c' := by
  induction h with
  | nil => exact h'
  | value hrun _ ih => exact .value hrun (ih h')
  | failure hrun _ ih => exact .failure hrun (ih h')

@[simp] theorem after_nil (w : Workspace) : w.after [] = w := by
  rfl

@[simp] theorem after_append
    (w : Workspace) (calls later : List Call) :
    w.after (calls ++ later) = (w.after calls).after later := by
  exact List.foldl_append

@[simp] theorem after_cons
    (w : Workspace) (c : Call) (later : List Call) :
    w.after (c :: later) = (w.call c).after later := by
  rfl

theorem along_append
    {α : Type} (note : Workspace → Call → List α) (w : Workspace)
    (calls later : List Call) :
    along note w (calls ++ later) = along note w calls ++
      along note (w.after calls) later := by
  induction calls generalizing w with
  | nil => rfl
  | cons c calls ih =>
      rw [List.cons_append, along, along, ih, after_cons, List.append_assoc]

theorem along_concat
    {α : Type} (note : Workspace → Call → List α) (w : Workspace)
    (calls : List Call) (c : Call) :
    along note w (calls ++ [c]) = along note w calls ++ note (w.after calls) c := by
  rw [along_append, along, along, List.append_nil]

theorem latest_concat
    (line : Int) (calls : List Call) (c : Call) :
    latest line (calls ++ [c]) = (added? line c).or (latest line calls) := by
  rw [latest, List.filterMap_append]
  cases hentry : added? line c with
  | none => simp [hentry, latest]
  | some e => simp [hentry]

/-! ## One run -/

/-- The workspace `w'` has the values of the entries `before`, and the entries `rest` are
queued in it. -/
structure Progress (w : Workspace) (before rest : Ledger Int Entry) (values : List Value)
    (w' : Workspace) : Prop where
  queue : w'.queue = rest
  results : w'.results = w.results ++ values
  length : values.length = before.length

/-- What a run can come to: every queued program has a value and the queue is empty, or one
of them fails after those before it had values, and the entries behind it stay. -/
inductive Serves (w : Workspace) (queue : Ledger Int Entry) :
    EStateM.Result Fault Workspace Unit → Prop
  | completes {values : List Value} {w' : Workspace} :
      Evaluated w.chain (programs queue) values w'.chain → Progress w queue [] values w' →
        Serves w queue (.ok () w')
  | stops {before rest : Ledger Int Entry} {failing : Int ×
      Entry} {values : List Value} {c : Chain} {fault : Fault}
      {w' : Workspace} :
      queue = before ++ failing :: rest → Evaluated w.chain (programs before) values c →
      failing.2.program.evaluate c = .error fault w'.chain →
        Progress w before rest values w' →
      Serves w queue (.error fault w')

theorem serves_runEntries
    (queue : Ledger Int Entry) (w : Workspace) :
    Serves w queue (runEntries queue w) := by
  induction queue generalizing w with
  | nil => exact .completes .nil ⟨rfl, (List.append_nil _).symm, rfl⟩
  | cons e rest ih =>
      obtain ⟨line, entry⟩ := e
      rw [runEntries]
      cases hrun : entry.program.evaluate w.chain with
      | error fault c =>
          exact .stops (List.nil_append _).symm .nil hrun
            ⟨rfl, (List.append_nil _).symm, rfl⟩
      | ok v c =>
          dsimp only
          generalize hw₁ : { w with
            reporter :=
              (w.reporter.registerLine w.path entry.source line).registerFile w.path
            chain := c
            queue := rest
            results := w.results ++ [v] } = w₁
          have hchain : w₁.chain = c := by rw [← hw₁]
          have hresults (values : List Value) :
              w₁.results ++ values = w.results ++ (v :: values) := by
            rw [← hw₁, List.append_assoc, List.singleton_append]
          have hrest := ih w₁
          generalize runEntries rest w₁ = r at hrest ⊢
          cases hrest with
          | @completes values w' hevaluated hprogress =>
              rw [hchain] at hevaluated
              exact .completes (.value hrun hevaluated)
                ⟨hprogress.queue, hprogress.results.trans (hresults values),
                  congrArg (· + 1) hprogress.length⟩
          | @stops before behind failing values c₁ fault w' hsplit hevaluated hfails
              hprogress =>
              have hsplit' : (line, entry) :: rest =
                  ((line, entry) :: before) ++ failing :: behind := by
                rw [hsplit, List.cons_append]
              rw [hchain] at hevaluated
              exact .stops hsplit' (.value hrun hevaluated) hfails
                ⟨hprogress.queue, hprogress.results.trans (hresults values),
                  congrArg (· + 1) hprogress.length⟩

/-- A run takes a first part of the queue, evaluates it and appends its values. -/
theorem exists_values_of_run
    (w : Workspace) :
    ∃ values,
      w.queue = w.taken .run ++ (w.call .run).queue ∧
      Evaluated w.chain (programs (w.taken .run)) values (w.call .run).chain ∧
      (w.call .run).results = w.results ++ values := by
  have hserves : Serves w w.queue (run w) := serves_runEntries w.queue w
  rw [taken, call]
  generalize run w = r at hserves ⊢
  cases hserves with
  | @completes values w' hevaluated hprogress =>
      have htaken : w.queue.take (w.queue.length - w'.queue.length) = w.queue := by
        rw [hprogress.queue, List.length_nil, Nat.sub_zero, List.take_length]
      simp only [leaves, htaken]
      exact ⟨values,
        by rw [hprogress.queue, List.append_nil], hevaluated, hprogress.results⟩
  | @stops before rest failing values c fault w' hsplit hevaluated hfails hprogress =>
      have htaken : w.queue.take (w.queue.length - w'.queue.length) =
          before ++ [failing] := by
        rw [hprogress.queue, hsplit, List.append_cons, List.length_append,
          Nat.add_sub_cancel, List.take_left]
      simp only [leaves, htaken]
      refine ⟨values, ?_, ?_, hprogress.results⟩
      · rw [hprogress.queue, hsplit, List.append_assoc, List.singleton_append]
      · -- The entry that failed has been taken, and left no value.
        rw [programs, List.map_append, ← List.append_nil values]
        exact hevaluated.append (.failure hfails .nil)

/-- A run of a queue that is not empty makes it shorter. -/
theorem length_queue_run
    {w : Workspace}
    (h : w.queue ≠ []) :
    (w.call .run).queue.length < w.queue.length := by
  have hserves : Serves w w.queue (run w) := serves_runEntries w.queue w
  rw [call]
  generalize run w = r at hserves ⊢
  cases hserves with
  | completes hevaluated hprogress =>
      rw [leaves, hprogress.queue]
      exact List.length_pos_iff.mpr h
  | stops hsplit hevaluated hfails hprogress =>
      rw [leaves, hprogress.queue, hsplit, List.length_append, List.length_cons]
      omega

/-- At most as many runs as there are queued entries empty the queue. -/
theorem exists_runs_empty
    (w : Workspace) :
    ∃ k ≤ w.queue.length, (w.after (List.replicate k .run)).queue = [] := by
  generalize hsize : w.queue.length = size
  induction size using Nat.strong_induction_on generalizing w with
  | _ size ih =>
      by_cases hqueue : w.queue = []
      · exact ⟨0, Nat.zero_le _, hqueue⟩
      · have hless := length_queue_run hqueue
        obtain ⟨k, hk, hempty⟩ := ih _ (hsize ▸ hless) (w.call .run) rfl
        exact ⟨k + 1, by omega, by rw [List.replicate_succ, after_cons, hempty]⟩

/-! ## One call -/

/-- The created entries are the ones that were taken and the ones that are queued. -/
theorem keys_queue_call
    (w : Workspace) (c : Call) :
    Ledger.keys w.queue ++ w.created c = (w.taken c).map Prod.fst ++
      Ledger.keys (w.call c).queue := by
  cases c with
  | add source line =>
      cases hparse : parse source with
      | error fault => simp [created, taken, call, add, leaves, hparse]
      | ok program => simp [created, taken, call, add, leaves, hparse, Ledger.keys_put]
  | run =>
      obtain ⟨values, hqueue, _⟩ := w.exists_values_of_run
      simp only [created, List.append_nil]
      nth_rewrite 1 [hqueue]
      exact List.map_append
  | pop => cases hresults : w.results <;> simp [created, taken, call, pop?, hresults]

/-- A call evaluates what it takes. The values that wait and the ones that come are the one
popped and the ones that wait then. -/
theorem evaluated_call
    (w : Workspace) (c : Call) :
    ∃ values,
      Evaluated w.chain (programs (w.taken c)) values (w.call c).chain ∧
      w.results ++ values = w.popped c ++ (w.call c).results := by
  cases c with
  | add source line =>
      refine ⟨[], ?_, ?_⟩
      · cases hparse : parse source <;> simp [taken, programs, call, add, leaves,
          hparse, Evaluated.nil]
      · cases hparse : parse source <;> simp [popped, call, add, leaves, hparse]
  | run =>
      obtain ⟨values, _, hevaluated, hresults⟩ := w.exists_values_of_run
      exact ⟨values, hevaluated, by rw [hresults]; rfl⟩
  | pop =>
      refine ⟨[], ?_, ?_⟩
      · cases hresults : w.results <;> simp [taken, programs, call, pop?,
          hresults, Evaluated.nil]
      · cases hresults : w.results <;> simp [popped, call, pop?, hresults]

/-- Each number is queued once, and with the text that was read last under it. -/
structure UpToDate (w : Workspace) (calls : List Call) : Prop where
  nodup : (Ledger.keys w.queue).Nodup
  latest_eq : ∀ e ∈ w.queue, latest e.1 calls = some e.2

theorem UpToDate.sublist
    {w w' : Workspace} {calls : List Call} {c : Call}
    (h : w.UpToDate calls)
    (hqueue : w'.queue.Sublist w.queue)
    (hentry : ∀ line, added? line c = none) :
    w'.UpToDate (calls ++ [c]) := by
  refine ⟨h.nodup.sublist (hqueue.map Prod.fst), ?_⟩
  intro e he
  rw [latest_concat, hentry, Option.none_or]
  exact h.latest_eq e (hqueue.subset he)

theorem UpToDate.call
    {w : Workspace} {calls : List Call}
    (h : w.UpToDate calls)
    (c : Call) :
    (w.call c).UpToDate (calls ++ [c]) := by
  cases c with
  | add source line =>
      cases hparse : parse source with
      | error fault =>
          refine h.sublist ?_ fun n => by simp [added?, hparse]
          simp [Workspace.call, add, leaves, hparse]
      | ok program =>
          have hqueue : (w.call (.add source line)).queue =
              Ledger.put line ⟨source, program⟩ w.queue := by
            simp [Workspace.call, add, leaves, hparse]
          refine ⟨hqueue ▸ Ledger.nodup_keys_put h.nodup line _, ?_⟩
          intro e he
          rw [hqueue] at he
          rcases Ledger.mem_put h.nodup he with rfl | ⟨hline, hmem⟩
          · simp [latest_concat, added?, hparse]
          · simp [latest_concat, added?, hparse, hline.symm, h.latest_eq e hmem]
  | run =>
      obtain ⟨values, hqueue, _⟩ := w.exists_values_of_run
      exact h.sublist (hqueue ▸ List.sublist_append_right _ _) fun _ => rfl
  | pop =>
      refine h.sublist ?_ fun _ => rfl
      cases hresults : w.results <;> simp [Workspace.call, pop?, hresults]

/-! ## A history -/

variable {w : Workspace}

theorem upToDate_after
    (h : w.queue = [])
    (calls : List Call) :
    (w.after calls).UpToDate calls := by
  induction calls using List.reverseRecOn with
  | nil => exact ⟨by simp [h, Ledger.keys], by simp [h]⟩
  | append_singleton calls c ih =>
      rw [after_append]
      exact ih.call c

theorem keys_queue_after
    (h : w.queue = [])
    (calls : List Call) :
    along created w calls = (along taken w calls).map Prod.fst ++
      Ledger.keys (w.after calls).queue := by
  induction calls using List.reverseRecOn with
  | nil => simp [along, h, Ledger.keys]
  | append_singleton calls c ih =>
      rw [along_concat, along_concat, ih, List.append_assoc, keys_queue_call,
        List.map_append, List.append_assoc, after_append]
      rfl

theorem evaluated_after
    (w : Workspace) (calls : List Call) :
    ∃ values,
      Evaluated w.chain (programs (along taken w calls)) values (w.after calls).chain ∧
      w.results ++ values = along popped w calls ++ (w.after calls).results := by
  induction calls using List.reverseRecOn with
  | nil => exact ⟨[], .nil, by simp [along]⟩
  | append_singleton calls c ih =>
      obtain ⟨values, hevaluated, hresults⟩ := ih
      obtain ⟨more, hmore, hresults'⟩ := evaluated_call (w.after calls) c
      refine ⟨values ++ more, ?_, ?_⟩
      · rw [along_concat, programs, List.map_append, after_append]
        exact hevaluated.append hmore
      · rw [along_concat, ← List.append_assoc, hresults, List.append_assoc, hresults',
          after_append, List.append_assoc]
        rfl

/-- All entries of a history are served in order. -/
structure ServedInOrder (w : Workspace) (calls : List Call) : Prop where
  /-- The entries taken, and behind them the ones that are queued, are the ones created, in
  order of creation. -/
  order : along created w calls = (along taken w calls).map Prod.fst ++
    Ledger.keys (w.after calls).queue
  /-- A run takes under each number what was read last under it. -/
  newest : ∀ before later, calls = before ++ .run :: later →
    ∀ e ∈ (w.after before).taken .run, latest e.1 before = some e.2
  /-- Only the programs taken have been evaluated. Their values are popped in that order,
  until all have been. -/
  values : ∃ values,
    Evaluated w.chain (programs (along taken w calls)) values (w.after calls).chain ∧
    values = along popped w calls ++ (w.after calls).results ∧
    ((w.after calls).pop? = none ↔ values = along popped w calls)

theorem pop?_eq_none
    (w : Workspace) :
    w.pop? = none ↔ w.results = [] := by
  cases hresults : w.results <;> simp [pop?, hresults]

theorem servedInOrder
    (hqueue : w.queue = [])
    (hresults : w.results = [])
    (calls : List Call) :
    w.ServedInOrder calls := by
  refine ⟨keys_queue_after hqueue calls, ?_, ?_⟩
  · intro before later _ e he
    exact (upToDate_after hqueue before).latest_eq e (List.mem_of_mem_take he)
  · obtain ⟨values, hevaluated, hvalues⟩ := evaluated_after w calls
    rw [hresults, List.nil_append] at hvalues
    refine ⟨values, hevaluated, hvalues, ?_⟩
    rw [pop?_eq_none, hvalues, List.append_right_eq_self]

/-- Entries run in order of creation, each with the text read last, and values pop in the
order they were computed. A text that cannot be read changes nothing, and repeating a
failed run empties the queue. -/
theorem queue_served_in_order
    (reporter : Reporter) (path : String) (showTree : Bool) (calls : List Call) :
    let start := initial reporter path showTree
    let w := start.after calls
    start.ServedInOrder calls ∧
    (∀ source line fault, parse source = .error fault →
      ∃ w', add source line w = .error fault w' ∧ w'.queue = w.queue ∧
        w'.results = w.results ∧ w'.chain = w.chain) ∧
    Serves w w.queue (run w) ∧
    ∃ k ≤ w.queue.length, (w.after (List.replicate k .run)).queue = [] := by
  intro start w
  refine ⟨servedInOrder rfl rfl calls, ?_, serves_runEntries w.queue w,
    w.exists_runs_empty⟩
  intro source line fault hparse
  exact ⟨{ w with reporter := w.reporter.registerLine w.path source line },
    by simp only [add, hparse], rfl, rfl, rfl⟩

example :
    let w := initial (Reporter.fresh true) inputPath false
    let calls : List Call := [.add "a" 2, .add "b" 1, .add "c" 2, .run]
    along created w calls = [2, 1] ∧
      (along taken w calls).map (fun e => (e.1, e.2.source)) = [(2, "c")] ∧
    Ledger.keys (w.after calls).queue = [1] := by
  decide +kernel

end Workspace
end LetLang
