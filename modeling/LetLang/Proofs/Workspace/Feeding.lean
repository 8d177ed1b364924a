import LetLang.Proofs.Evaluation.Placement
import LetLang.Proofs.Grammar.Joining
import LetLang.Workspace

/-!
# Running texts one by one or joined

An interactive workspace is fed with complete texts, each at the line on which it begins in
the joined text. It ends as the evaluation of the joined text does: with the same scopes
and the same value, or with the same fault in the same text.
-/

namespace LetLang
namespace Workspace

/-- Reads a text that starts on that line and runs it. -/
def enter (source : String) (line : Int) : EStateM Fault Workspace Unit := do
  let _ ← add source line
  run

/-- Enters texts one after the other, the first at the line of `pos` and each of the others
below the one before it. A fault ends the work. -/
def feed (pos : Pos) : List String → EStateM Fault Workspace Unit
  | [] => pure ()
  | source :: rest => do
    enter source pos.line
    feed (pos.after (source.toList ++ ['\n'])) rest

/-- Everything that entering a readable text can do to a workspace with an empty queue. -/
theorem enter_cases
    {w : Workspace} {source : String} {program : Node} (line : Int)
    (hqueue : w.queue = [])
    (hparse : parse source = .ok program) :
    (∃ value chain w',
      program.evaluate w.chain = .ok value chain ∧ enter source line w = .ok () w' ∧
      w'.chain = chain ∧ w'.queue = [] ∧ w'.results = w.results ++ [value]) ∨
    ∃ fault chain w',
      program.evaluate w.chain = .error fault chain ∧
        enter source line w = .error fault w' ∧
      w'.chain = chain ∧ w'.results = w.results ∧
      Ledger.get? w'.path w'.reporter.registry = some (some ⟨source, line⟩) := by
  have hadd : add source line w = .ok program { w with
      reporter := (w.reporter.registerLine w.path source line).registerFile w.path
      queue := [(line, ⟨source, program⟩)] } := by
    simp only [add, hparse, hqueue, Ledger.put]
  cases hevaluate : program.evaluate w.chain with
  | ok value chain =>
      left
      refine ⟨value, chain, { w with
        reporter :=
          (((w.reporter.registerLine w.path source line).registerFile w.path).registerLine
            w.path source line).registerFile w.path
        chain := chain
        queue := []
        results := w.results ++ [value] }, rfl, ?_, rfl, rfl, rfl⟩
      simp only [enter, bind, EStateM.bind, hadd, run, runEntries, hevaluate]
  | error fault chain =>
      right
      refine ⟨fault, chain, { w with
        reporter :=
          ((w.reporter.registerLine w.path source line).registerFile w.path).registerLine
            w.path source line
        chain := chain
        queue := [] }, rfl, ?_, rfl, rfl, ?_⟩
      · simp only [enter, bind, EStateM.bind, hadd, run, runEntries, hevaluate]
      · simp [Reporter.registerLine]

/-- The number of lines of texts that stand one below the other. -/
def linesOf : List String → Nat
  | [] => 0
  | source :: sources => lineCount source + linesOf sources

theorem after_newline
    (k : Nat) (source : String) :
    (Pos.start.down k).after (source.toList ++ ['\n']) =
      Pos.start.down (k + lineCount source) := by
  rw [Pos.after_append, Pos.after_down]
  simp only [Pos.after_cons, Pos.after_nil, Pos.next, if_true, Pos.down, Pos.start,
    lineCount, Pos.mk.injEq, and_true]
  omega

theorem placed_append
    (k : Nat) (xs ys : List String) :
    placed k (xs ++ ys) = placed k xs ++ placed (k + linesOf xs) ys := by
  induction xs generalizing k with
  | nil => rfl
  | cons x xs ih =>
      rw [List.cons_append, placed, placed, ih, List.append_assoc]
      simp [linesOf, Nat.add_assoc]

theorem feed_append
    (k : Nat) (xs ys : List String) :
    feed (Pos.start.down k) (xs ++ ys) =
      feed (Pos.start.down k) xs >>= fun _ =>
        feed (Pos.start.down (k + linesOf xs)) ys := by
  induction xs generalizing k with
  | nil => simp [feed, linesOf]
  | cons x xs ih =>
      simp only [List.cons_append, feed, after_newline, ih, bind_assoc]
      simp [linesOf, Nat.add_assoc]

/-- Entering a complete text does what its statements do in any place, but for the places
of faults. -/
theorem enter_agrees
    {w : Workspace} {source : String} (k : Nat) (line : Int) (last : Value)
    (hqueue : w.queue = [])
    (hsource : Complete source) :
    (∃ value w',
      evaluateAll last ((statementsOf source).map (Node.relocate (Pos.down k)))
        w.chain = .ok value w'.chain ∧
      enter source line w = .ok () w' ∧ w'.queue = [] ∧
        w'.results = w.results ++ [value]) ∨
    ∃ fault w',
      evaluateAll last ((statementsOf source).map (Node.relocate (Pos.down k))) w.chain =
        .error ⟨fault.cause, fault.pos.down k⟩ w'.chain ∧
      enter source line w = .error fault w' ∧ w'.results = w.results ∧
      Ledger.get? w'.path w'.reporter.registry = some (some ⟨source, line⟩) := by
  obtain ⟨stream, p, _, _, _, hne, hparse, _⟩ := hsource.exists_program
  have hstatements : statementsOf source = p.nodes := by
    rw [statementsOf, hparse]
    rfl
  have hnodes : p.nodes ≠ [] := by
    intro hnil
    exact hne (List.map_eq_nil_iff.mp hnil)
  have hmoved : evaluateAll last (p.nodes.map (Node.relocate (Pos.down k))) =
      (Node.program .unknown p.nodes).evaluate.relocate (Pos.down k) := by
    rw [evaluateAll_relocate _ _ (isProgram_of_parse hparse),
      evaluateAll_of_ne_nil hnodes last .null, Node.evaluate]
  rw [hstatements, hmoved]
  rcases enter_cases line hqueue hparse with
    ⟨value, chain, w', hevaluate, henter, rfl, hqueue',
      hresults⟩ | ⟨fault, chain, w', hevaluate, henter, rfl, hresults, hlisting⟩
  · refine Or.inl ⟨value, w', ?_, henter, hqueue', hresults⟩
    simp only [Evaluation.relocate, hevaluate]
  · refine Or.inr ⟨fault, w', ?_, henter, hresults, hlisting⟩
    simp only [Evaluation.relocate, hevaluate]

theorem feed_cons
    (k : Nat) (source : String) (rest : List String) :
    feed (Pos.start.down k) (source :: rest) =
      enter source (Pos.start.down k).line >>= fun _ =>
        feed (Pos.start.down (k + lineCount source)) rest := by
  rw [feed, after_newline]

theorem bind_apply_ok
    {σ α β : Type} {m : EStateM Fault σ α} {g : α → EStateM Fault σ β} {w w' : σ} {a : α}
    (h : m w = .ok a w') :
    (m >>= g) w = g a w' := by
  simp only [bind, EStateM.bind, h]

theorem bind_apply_error
    {σ α β : Type} {m : EStateM Fault σ α} {g : α → EStateM Fault σ β}
    {w w' : σ} {fault : Fault}
    (h : m w = .error fault w') :
    (m >>= g) w = .error fault w' := by
  simp only [bind, EStateM.bind, h]

/-- As long as the texts do not fail, their statements have been evaluated, and each text
has left a value. -/
theorem evaluateAll_of_feed
    {w w' : Workspace} {sources : List String} (k : Nat) (last : Value)
    (hqueue : w.queue = [])
    (hsources : ∀ source ∈ sources, Complete source)
    (hfeed : feed (Pos.start.down k) sources w = .ok () w') :
    ∃ values : List Value,
      evaluateAll last (placed k sources) w.chain = .ok (values.getLastD last) w'.chain ∧
      w'.queue = [] ∧ w'.results = w.results ++ values ∧
        values.length = sources.length := by
  induction sources generalizing k last w with
  | nil =>
      cases hfeed
      exact ⟨[], by simp [placed, evaluateAll]; rfl, hqueue, by simp, rfl⟩
  | cons source rest ih =>
      rw [feed_cons] at hfeed
      rcases enter_agrees k (Pos.start.down k).line last hqueue
        (hsources source List.mem_cons_self) with
        ⟨value, w₁, hevaluate, henter, hqueue₁, hresults₁⟩ | ⟨fault, w₁, _, henter, _⟩
      · rw [bind_apply_ok henter] at hfeed
        obtain ⟨values, hrest, hqueue', hresults, hlength⟩ :=
          ih (k + lineCount source) value hqueue₁ (fun s hs =>
            hsources s (List.mem_cons_of_mem source hs)) hfeed
        refine ⟨value :: values, ?_, hqueue', ?_, by simp [hlength]⟩
        · rw [placed, evaluateAll_append, bind_apply_ok hevaluate, hrest,
            List.getLastD_cons]
        · rw [hresults, hresults₁, List.append_assoc]
          rfl
      · rw [bind_apply_error henter] at hfeed
        cases hfeed

/-- A fault ends the work in one of the texts, after the ones before it have
been entered. -/
theorem exists_of_feed_error
    {w w' : Workspace} {sources : List String} {fault : Fault} (k : Nat)
    (hfeed : feed (Pos.start.down k) sources w = .error fault w') :
    ∃ before source after w₁,
      sources = before ++ source :: after ∧ feed (Pos.start.down k) before w = .ok () w₁ ∧
      enter source (Pos.start.down (k + linesOf before)).line w₁ = .error fault w' := by
  induction sources generalizing k w with
  | nil => cases hfeed
  | cons source rest ih =>
      rw [feed_cons] at hfeed
      cases henter : enter source (Pos.start.down k).line w with
      | error fault₁ w₁ =>
          rw [bind_apply_error henter] at hfeed
          cases hfeed
          exact ⟨[], source, rest, w, rfl, rfl, henter⟩
      | ok u w₁ =>
          rw [bind_apply_ok henter] at hfeed
          obtain ⟨before, failing, after, w₂, rfl, hbefore, hfailing⟩ :=
            ih (k + lineCount source) hfeed
          refine ⟨source :: before, failing, after, w₂, rfl, ?_, ?_⟩
          · rw [feed_cons, bind_apply_ok henter]
            exact hbefore
          · rw [linesOf, ← Nat.add_assoc]
            exact hfailing

theorem evaluateSource_intercalate
    {sources : List String}
    (h : ∀ source ∈ sources, Complete source)
    (c : Chain) :
    evaluateSource ("\n".intercalate sources) c =
      evaluateAll .null (placed 0 sources) c := by
  rw [evaluateSource, parse_intercalate h]
  simp only [Node.evaluate]

theorem placed_singleton
    (k : Nat) (source : String) :
    placed k [source] = (statementsOf source).map (Node.relocate (Pos.down k)) := by
  rw [placed, placed, List.append_nil]

/-- An interactive workspace begins with the built-in names, an empty queue and
no results. -/
theorem openAt_input
    {style : Style} {reporter : Reporter} {showTree : Bool} {file : Loaded}
    {w : Workspace} {output : String}
    (h : openAt style reporter inputPath true showTree file = .ready w output) :
    w.chain = Chain.initial version ∧ w.queue = [] ∧ w.results = [] := by
  simp only [openAt, if_true] at h
  cases h
  exact ⟨rfl, rfl, rfl⟩

/-- Both ways of running texts fail in `source`, after the texts `before`. -/
structure FailIn (w : Workspace) (before : List String) (source : String)
    (fault fault' : Fault) (chain : Chain)
    (w' : Workspace) : Prop where
  joinedBefore : ∃ value chain₁,
    evaluateSource ("\n".intercalate before) (Chain.initial version) = .ok value chain₁
  joined : evaluateSource ("\n".intercalate (before ++ [source]))
    (Chain.initial version) = .error fault chain
  fedBefore : ∃ w₁, feed .start before w = .ok () w₁
  fed : feed .start (before ++ [source]) w = .error fault' w'

/-- Where entering a text fails after others, its statements fail in the joined text for
the same reason. -/
theorem evaluateAll_of_enter_error
    {w w₁ w' : Workspace} {before : List String} {source : String} {fault : Fault}
    (hqueue : w.queue = [])
    (hbefore : ∀ s ∈ before, Complete s)
    (hsource : Complete source)
    (hfeed : feed .start before w = .ok () w₁)
    (henter : enter source (Pos.start.down (linesOf before)).line w₁ = .error fault w') :
    evaluateAll .null (placed 0 (before ++ [source])) w.chain =
        .error ⟨fault.cause, fault.pos.down (linesOf before)⟩ w'.chain ∧
      w'.results.length = w.results.length + before.length ∧
      Ledger.get? w'.path w'.reporter.registry =
        some (some ⟨source, (Pos.start.down (linesOf before)).line⟩) := by
  obtain ⟨values, hevaluate, hqueue₁, hvalues, hlength⟩ :=
    evaluateAll_of_feed 0 .null hqueue hbefore hfeed
  rcases enter_agrees (linesOf before) (Pos.start.down (linesOf before)).line
    (values.getLastD .null) hqueue₁
    hsource with ⟨value, w₂, _, hok, _⟩ | ⟨fault₂, w₂, herror, hfail, hresults, hlisting⟩
  · rw [henter] at hok
    cases hok
  · rw [henter] at hfail
    cases hfail
    refine ⟨?_, ?_, hlisting⟩
    · rw [placed_append, evaluateAll_append, bind_apply_ok hevaluate, Nat.zero_add,
        placed_singleton, herror]
    · rw [hresults, hvalues, List.length_append, hlength]

/--
Complete texts are evaluated joined or one by one with the same scopes, the same value of
the last text, and the same fault at the same place.
-/
theorem feed_agrees_with_joined
    {style : Style} {reporter : Reporter} {showTree : Bool} {file : Loaded}
    {w : Workspace} {output : String}
    {sources : List String}
    (hopen : openAt style reporter inputPath true showTree file = .ready w output)
    (hsources : ∀ source ∈ sources, Complete source) :
    match evaluateSource ("\n".intercalate sources) (Chain.initial version),
      feed .start sources w with
    | .ok value chain, .ok _ w' =>
        w'.chain = chain ∧ w'.results.length = sources.length ∧
          w'.results.getLastD .null = value
    | .error fault chain, .error fault' w' =>
        ∃ before source after,
          sources = before ++ source :: after ∧
          FailIn w before source fault fault' chain w' ∧
          w'.chain = chain ∧ w'.results.length = before.length ∧
          fault.cause = fault'.cause ∧ fault.pos.column = fault'.pos.column ∧
          ∃ listing : Listing,
            Ledger.get? w'.path w'.reporter.registry = some (some listing) ∧
            listing.source = source ∧
            (fault.pos.line : Int) = listing.firstLine + fault'.pos.line - 1
    | _, _ => False := by
  obtain ⟨hchain, hqueue, hresults⟩ := openAt_input hopen
  rw [evaluateSource_intercalate hsources, ← hchain]
  cases hfeed : feed .start sources w with
  | ok u w' =>
      obtain ⟨values, hevaluate, _, hvalues, hlength⟩ :=
        evaluateAll_of_feed 0 .null hqueue hsources hfeed
      rw [hresults, List.nil_append] at hvalues
      rw [hevaluate]
      refine ⟨rfl, ?_, ?_⟩
      · rw [hvalues, hlength]
      · rw [hvalues]
  | error fault' w' =>
      obtain ⟨before, source, after, w₁, rfl, hfeedBefore, henter⟩ :=
        exists_of_feed_error 0 hfeed
      rw [Nat.zero_add] at henter
      have hbefore : ∀ s ∈ before, Complete s :=
        fun s hs => hsources s (List.mem_append_left _ hs)
      have hsource : Complete source :=
        hsources source (List.mem_append_right _ List.mem_cons_self)
      have hboth : ∀ s ∈ before ++ [source], Complete s :=
        List.forall_mem_append.mpr ⟨hbefore, List.forall_mem_singleton.mpr hsource⟩
      obtain ⟨herror, hlength, hlisting⟩ :=
        evaluateAll_of_enter_error hqueue hbefore hsource hfeedBefore henter
      have hwhole : evaluateAll .null (placed 0 (before ++ source :: after)) w.chain =
          .error ⟨fault'.cause, fault'.pos.down (linesOf before)⟩ w'.chain := by
        rw [List.append_cons before source after, placed_append, evaluateAll_append,
          bind_apply_error herror]
      rw [hwhole]
      refine ⟨before, source, after, rfl, ⟨?_, ?_, ⟨w₁, hfeedBefore⟩, ?_⟩, rfl, ?_, rfl,
        rfl, _, hlisting, rfl, ?_⟩
      · obtain ⟨values, hevaluate, _⟩ :=
          evaluateAll_of_feed 0 .null hqueue hbefore hfeedBefore
        rw [evaluateSource_intercalate hbefore, ← hchain]
        exact ⟨_, _, hevaluate⟩
      · rw [evaluateSource_intercalate hboth, ← hchain]
        exact herror
      · refine (congrFun (feed_append 0 before [source]) w).trans ?_
        rw [bind_apply_ok hfeedBefore, Nat.zero_add, feed_cons, bind_apply_error henter]
      · rw [hlength, hresults]
        exact Nat.zero_add _
      · simp only [Pos.down, Pos.start]
        omega

/-- The second of two texts uses a name that is not declared. -/
theorem feed_agrees_with_joined_unknown :
    (∀ source ∈ ["let x;", "x = y;"], Complete source) ∧
    ∃ fault w',
      feed .start ["let x;", "x = y;"]
        (initial ⟨false, [(inputPath, none)]⟩ inputPath false) = .error fault w' ∧
      fault.cause = .notDeclared "y" ∧ fault.pos.column = 5 ∧
      w'.chain = ⟨Ledger.put "x" ⟨.null, false⟩ (Scope.builtins version), []⟩ := by
  have hlet : tokenize "let x;" =
      .ok ⟨[⟨.declare false, ⟨1, 1⟩⟩, ⟨.identifier "x", ⟨1, 5⟩⟩, ⟨.semicolon, ⟨1, 6⟩⟩],
        ⟨1, 7⟩⟩ := by
    decide +kernel
  have hset : tokenize "x = y;" =
      .ok ⟨[⟨.identifier "x", ⟨1, 1⟩⟩, ⟨.operator .assign, ⟨1, 3⟩⟩,
        ⟨.identifier "y", ⟨1, 5⟩⟩, ⟨.semicolon, ⟨1, 6⟩⟩], ⟨1, 7⟩⟩ := by
    decide +kernel
  have hdeclaration : Complete "let x;" :=
    ⟨_, _, hlet, (parse_of_tokenize hlet).trans rfl, rfl⟩
  have hassignment : Complete "x = y;" :=
    ⟨_, _, hset, (parse_of_tokenize hset).trans rfl, rfl⟩
  have hsources : ∀ source ∈ ["let x;", "x = y;"], Complete source :=
    List.forall_mem_cons.mpr ⟨hdeclaration, List.forall_mem_singleton.mpr hassignment⟩
  have hopen : openAt .plain (Reporter.fresh true) inputPath true false .unopenable =
      .ready (initial ⟨false, [(inputPath, none)]⟩ inputPath false) "" := rfl
  have htokens : tokenize ("\n".intercalate ["let x;", "x = y;"]) =
      .ok ⟨[⟨.declare false, ⟨1, 1⟩⟩, ⟨.identifier "x", ⟨1, 5⟩⟩, ⟨.semicolon, ⟨1, 6⟩⟩,
        ⟨.identifier "x", ⟨2, 1⟩⟩, ⟨.operator .assign, ⟨2, 3⟩⟩, ⟨.identifier "y", ⟨2, 5⟩⟩,
        ⟨.semicolon, ⟨2, 6⟩⟩], ⟨2, 7⟩⟩ := by
    decide +kernel
  have hparse : parse ("\n".intercalate ["let x;", "x = y;"]) = .ok (.program .unknown
      [.declaration ⟨1, 1⟩ "x" ⟨1, 5⟩ false none,
        .assignment ⟨2, 1⟩ (.identifier ⟨2, 1⟩ "x") (.identifier ⟨2, 5⟩ "y")]) :=
    (parse_of_tokenize htokens).trans rfl
  have hjoined : evaluateSource
      ("\n".intercalate ["let x;", "x = y;"]) (Chain.initial version) =
      .error ⟨.notDeclared "y", ⟨2, 5⟩⟩
        ⟨Ledger.put "x" ⟨.null, false⟩ (Scope.builtins version), []⟩ := by
    rw [evaluateSource, hparse]
    rfl
  have h := feed_agrees_with_joined hopen hsources
  rw [hjoined] at h
  refine ⟨hsources, ?_⟩
  cases hfeed : feed .start ["let x;", "x = y;"]
    (initial ⟨false, [(inputPath, none)]⟩ inputPath false) with
  | ok u w' =>
      rw [hfeed] at h
      exact h.elim
  | error fault w' =>
      rw [hfeed] at h
      obtain ⟨_, _, _, _, _, hchain, _, hcause, hcolumn, _⟩ := h
      exact ⟨fault, w', rfl, hcause.symm, hcolumn.symm, hchain⟩

end Workspace
end LetLang
