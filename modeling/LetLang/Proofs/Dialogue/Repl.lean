import LetLang.Dialogue.Basic
import LetLang.Proofs.Report.Caret

/-!
# A dialogue is a read-eval-print loop

A dialogue keeps a queue of programs, a list of values to take, a registry of texts to
report about and lines that it holds back. All this serves a simple loop, `Repl`, which has
nothing but a chain of scopes, the text that is held back and the number of lines: it reads
a text once it is complete, evaluates it once, and prints its value or one report. Whatever
lines have been taken, the next one is answered as by the loop. Between two lines the queue
and the list of values are empty, and the registry knows no file but the input.
-/

namespace LetLang
namespace Fault

/-- The line of a fault with the faulty part set apart, and a caret below this part. -/
def diagnosis (style : Style) (text : String) (fault : Fault) : String :=
  Diagnostic.underlined style .red (Text.lineAt text.toList fault.pos)
    fault.pos.column fault.width

/-- The report of a fault in a text that starts on that line of a file. -/
def report (style : Style) (path text : String) (firstLine : Nat)
    (fault : Fault) : String :=
  let row := firstLine + fault.pos.line - 1
  style.paint .bold
      (path ++ ":" ++ toString row ++ ":" ++ toString fault.pos.column ++ ": ") ++
    style.paint .red "error: " ++ fault.cause.message.render style ++ "\n" ++
    fault.diagnosis style text ++ "\n"

end Fault

/-- The state of a read-eval-print loop. -/
structure Repl where
  chain : Chain
  /-- The text that has been held back, empty if there is none. -/
  text : String
  /-- The line on which that text starts. -/
  firstLine : Nat
  /-- How many lines have been read. -/
  lineCount : Nat

namespace Repl

/-- Nothing has been read. -/
def start : Repl := ⟨Chain.initial version, "", 0, 0⟩

/-- The text that the line makes with the text held back, without blanks at its end. -/
def joined (s : Repl) (line : String) : String :=
  Text.trimEnd (if s.text = "" then line else s.text ++ "\n" ++ line)

/-- The line on which that text starts. -/
def joinedLine (s : Repl) : Nat :=
  if s.text = "" then s.lineCount + 1 else s.firstLine

/-- What is printed when a text has been read: its tree, if trees are shown. -/
def shown (showTree : Bool) (text : String) : String :=
  match parse text with
  | .ok program => if showTree then program.display 0 ++ "\n" else ""
  | .error _ => ""

/-- Takes a line: what is printed, and the state afterwards. -/
def step (showTree : Bool) (style : Style) (s : Repl) (line : String) : String × Repl :=
  let text := s.joined line
  let next : Repl := ⟨s.chain, "", s.joinedLine, s.lineCount + 1⟩
  if Continuation.isOpen text.toList then ("", { next with text })
  else if text = "" then ("", next)
  else
    match evaluateSource text s.chain with
    | .ok value chain => (shown showTree text ++ value.text ++ "\n", { next with chain })
    | .error fault chain =>
      let report := fault.report style Workspace.inputPath text s.joinedLine
      (shown showTree text ++ report, { next with chain })

/-- What comes of a line. -/
inductive Outcome
  /-- Nothing yet, or nothing at all. -/
  | silent
  /-- A text has been evaluated. -/
  | evaluated
  /-- An error has been reported. -/
  | reported
deriving DecidableEq, Repr

/-- What comes of a line that is taken. -/
def outcome (s : Repl) (line : String) : Outcome :=
  let text := s.joined line
  if Continuation.isOpen text.toList then .silent
  else if text = "" then .silent
  else
    match evaluateSource text s.chain with
    | .ok _ _ => .evaluated
    | .error _ _ => .reported

/-- The text that is held back, if there is one. -/
def pending (s : Repl) : Option Pending :=
  if s.text = "" then none else some ⟨s.text, s.firstLine⟩

theorem pending_of_eq
    {s : Repl}
    (h : s.text = "") :
    s.pending = none := by
  exact if_pos h

theorem pending_of_ne
    {s : Repl}
    (h : s.text ≠ "") :
    s.pending = some ⟨s.text, s.firstLine⟩ := by
  exact if_neg h

/-- Takes lines in order. -/
def after (showTree : Bool) (style : Style) (s : Repl) (lines : List String) : Repl :=
  lines.foldl (fun s line => (s.step showTree style line).2) s

theorem after_cons
    (showTree : Bool) (style : Style) (s : Repl) (line : String) (lines : List String) :
    s.after showTree style (line :: lines) =
      (s.step showTree style line).2.after showTree style lines := by
  exact List.foldl_cons ..

/-- A text that cannot be read changes no scope. -/
theorem chain_step_of_parse_error
    {s : Repl} {line : String} {fault : Fault} (showTree : Bool) (style : Style)
    (h : parse (s.joined line) = .error fault) :
    (s.step showTree style line).2.chain = s.chain := by
  simp only [step, evaluateSource, h]
  split
  · rfl
  · split
    · rfl
    · rfl

end Repl

/-- What is reported of a fault, if the text is the only one that is registered. -/
theorem Reporter.report_of_fault
    {text : String} {fault : Fault} (fatal : Bool) (style : Style)
    (path : String) (firstLine : Nat)
    (htext : text ≠ "")
    (hplace : Text.HasPlace text.toList fault.pos)
    (hkind : fault.cause.kind ≠ .internal) :
    Reporter.report ⟨fatal, [(path, some ⟨text, firstLine⟩)]⟩
      style .error (.ofFault fault) =
      fault.report style path text firstLine := by
  have hpos := hplace.line_pos
  have hline : (fault.pos.line : Int) ≠ 0 := by
    omega
  have hinternal : (Diagnostic.ofFault fault).isInternal = false :=
    beq_eq_false_iff_ne.mpr hkind
  have hshows : (Diagnostic.ofFault fault).showsSource = true := bne_iff_ne.mpr hkind
  have hsum : (firstLine : Int) + fault.pos.line - 1 =
      (firstLine + fault.pos.line - 1 : Nat) := by
    omega
  have hheader : header ⟨fatal, [(path, some ⟨text, firstLine⟩)]⟩ style (.ofFault fault) =
      style.paint .bold
        (path ++ ":" ++ toString (firstLine + fault.pos.line - 1) ++ ":" ++
          toString fault.pos.column ++ ": ") := by
    simp only [header, Diagnostic.place, Diagnostic.ofFault, hline, ne_eq,
      not_false_eq_true, Option.isSome_some, and_self, if_true, if_false, hsum]
    rfl
  have hsource : shownSource? ⟨fatal, [(path, some ⟨text, firstLine⟩)]⟩
      (.ofFault fault) = some text := by
    have hguard : text ≠ "" ∧ (Diagnostic.ofFault fault).isInternal = false ∧
        (Diagnostic.ofFault fault).showsSource = true ∧
          (Diagnostic.ofFault fault).line ≠ 0 :=
      ⟨htext, hinternal, hshows, hline⟩
    simp only [shownSource?, listing?, List.head?_cons, Option.bind_some]
    exact if_pos hguard
  simp only [report, hheader, hsource, hinternal, Bool.false_eq_true, and_false, if_false,
    String.append_empty, Severity.accent, Severity.label,
    Diagnostic.excerpt_ofFault hplace style .red, Fault.report, Fault.diagnosis,
    String.append_assoc]
  rfl

/-- Where no piece of source is worked on, nothing is shown below a report. -/
theorem Reporter.report_of_listing_none
    {r : Reporter} {d : Diagnostic} (style : Style) (severity : Severity)
    (hlisting : r.listing? = none)
    (hinternal : d.isInternal = false) :
    r.report style severity d =
      r.header style d ++ style.paint severity.accent severity.label ++
        d.message.render style ++ "\n" := by
  simp only [report, shownSource?, hlisting, hinternal, Bool.false_eq_true, and_false,
    if_false, String.append_empty]

namespace Dialogue

/-- The workspace between two lines: nothing waits to be evaluated or taken. -/
def idle (showTree : Bool) (chain : Chain) (registry : Ledger String (Option Listing)) :
    Workspace :=
  ⟨⟨false, registry⟩, Workspace.inputPath, showTree, chain, [], []⟩

/-- The registry knows no file but the input. -/
def OnlyInput (registry : Ledger String (Option Listing)) : Prop :=
  registry = [] ∨ ∃ listing, registry = [(Workspace.inputPath, listing)]

theorem OnlyInput.put
    {registry : Ledger String (Option Listing)}
    (h : OnlyInput registry)
    (listing : Option Listing) :
    Ledger.put Workspace.inputPath listing registry =
      [(Workspace.inputPath, listing)] := by
  rcases h with rfl | ⟨other, rfl⟩
  · rfl
  · simp [Ledger.put]

/-- The dialogue that stands where the loop stands and has this registry. -/
def standing (showTree : Bool) (s : Repl) (registry : Ledger String (Option Listing)) :
    Dialogue where
  workspace := idle showTree s.chain registry
  pending := s.pending
  lineCount := s.lineCount
  prompt := if s.text = "" then firstPrompt else secondaryPrompt

/-- The dialogue stands where the loop stands. -/
def StandsAt (showTree : Bool) (s : Repl) (d : Dialogue) : Prop :=
  ∃ registry, OnlyInput registry ∧ d = standing showTree s registry

/-- The text that a line makes with the lines held back, without blanks at its end, and
whether it has to be continued. -/
def assessed (d : Dialogue) (line : String) : String × Bool :=
  Continuation.assess
    (match d.pending with
    | none => line
    | some p => p.text ++ "\n" ++ line)

/-- The line on which that text starts. -/
def assessedLine (d : Dialogue) : Nat :=
  match d.pending with
  | none => d.lineCount + 1
  | some p => p.firstLine

/-- A line is held back, passed over or executed, with the lines held back before it. -/
theorem submit_eq_assessed
    (d : Dialogue) (style : Style) (line : String) :
    d.submit style line =
      if (d.assessed line).2 then
        ⟨"", .handled, d.holdBack (d.assessed line).1 d.assessedLine⟩
      else if (d.assessed line).1 = "" then
        ⟨"", .handled, d.release⟩
      else
        d.release.execute style (d.assessed line).1 d.assessedLine := by
  obtain ⟨w, pending, count, prompt⟩ := d
  cases pending with
  | none =>
      simp only [submit, assessed, assessedLine]
      rfl
  | some p =>
      simp only [submit, assessed, assessedLine]
      rfl

/-- Takes lines in order. -/
def after (style : Style) (d : Dialogue) (lines : List String) : Dialogue :=
  lines.foldl (fun d line => (d.submit style line).dialogue) d

theorem after_cons
    (style : Style) (d : Dialogue) (line : String) (lines : List String) :
    d.after style (line :: lines) = (d.submit style line).dialogue.after style lines := by
  exact List.foldl_cons ..

section Execution

variable {text : String}

/-- A fault is reported once, and the registry is cleared. -/
theorem settle_failed
    {d : Dialogue} {showTree : Bool} {chain : Chain}
    {queue : Ledger Int Entry} {results : List Value}
    {style : Style} {firstLine : Nat} {fault : Fault} (output : String)
    (htext : text ≠ "")
    (hplace : Text.HasPlace text.toList fault.pos)
    (hkind : fault.cause.kind ≠ .internal) :
    d.settle style output
        ⟨⟨false, [(Workspace.inputPath, some ⟨text, firstLine⟩)]⟩, Workspace.inputPath,
          showTree, chain, queue, results⟩
        (.failed (.ofFault fault)) .handled =
      ⟨output ++ fault.report style Workspace.inputPath text firstLine, .handled,
        { d with
          workspace :=
            ⟨⟨false, []⟩, Workspace.inputPath, showTree, chain, queue, results⟩ }⟩ := by
  have hinternal : (Diagnostic.ofFault fault).isInternal = false :=
    beq_eq_false_iff_ne.mpr hkind
  simp only [settle, Reporter.settle, Reporter.throw, hinternal, Bool.or_self,
    Bool.false_eq_true, if_false,
    Reporter.report_of_fault false style Workspace.inputPath firstLine htext hplace hkind]

/-- A complete text is evaluated once, in the chain that the lines before it have left. The
registry knows the input afterwards, unless a fault has been reported. -/
theorem execute_idle
    {d : Dialogue} {showTree : Bool} {chain : Chain}
    {registry : Ledger String (Option Listing)}
    (hd : d.workspace = idle showTree chain registry)
    (hregistry : OnlyInput registry)
    (htext : text ≠ "")
    (style : Style) (firstLine : Nat) :
    d.execute style text firstLine =
      match evaluateSource text chain with
      | .ok value chain' =>
        ⟨Repl.shown showTree text ++ value.text ++ "\n", .handled,
          { d with workspace := idle showTree chain' [(Workspace.inputPath, none)] }⟩
      | .error fault chain' =>
        ⟨Repl.shown showTree text ++ fault.report style Workspace.inputPath text firstLine,
          .handled, { d with workspace := idle showTree chain' [] }⟩ := by
  cases hrun : evaluateSource text chain with
  | error fault chain' =>
      obtain ⟨hplace, hkind⟩ := place_of_evaluateSource_error hrun
      cases hparse : parse text with
      | error fault' =>
          rw [evaluateSource, hparse] at hrun
          cases hrun
          simp only [execute, hd, Workspace.add, idle, hparse, Reporter.registerLine,
            hregistry.put, Repl.shown]
          exact settle_failed "" htext hplace hkind
      | ok program =>
          rw [evaluateSource, hparse] at hrun
          simp only [execute, hd, Workspace.add, idle, hparse, Reporter.registerLine,
            Reporter.registerFile, hregistry.put, Ledger.put, if_true, Workspace.run,
            Workspace.runEntries, hrun, Repl.shown, Workspace.shown]
          exact settle_failed _ htext hplace hkind
  | ok value chain' =>
      cases hparse : parse text with
      | error fault' =>
          rw [evaluateSource, hparse] at hrun
          cases hrun
      | ok program =>
          rw [evaluateSource, hparse] at hrun
          simp only [execute, hd, Workspace.add, idle, hparse, Reporter.registerLine,
            Reporter.registerFile, hregistry.put, Ledger.put, if_true, Workspace.run,
            Workspace.runEntries, hrun, Repl.shown, Workspace.shown, Workspace.pop?,
            List.nil_append, settle, Reporter.settle, String.append_empty]

end Execution

/-- The registry after a line: a text that has been evaluated leaves the input registered,
and an error leaves nothing. -/
def registered (registry : Ledger String (Option Listing)) :
    Repl.Outcome → Ledger String (Option Listing)
  | .silent => registry
  | .evaluated => [(Workspace.inputPath, none)]
  | .reported => []

theorem OnlyInput.registered
    {registry : Ledger String (Option Listing)}
    (h : OnlyInput registry)
    (outcome : Repl.Outcome) :
    OnlyInput (registered registry outcome) := by
  cases outcome with
  | silent => exact h
  | evaluated => exact Or.inr ⟨none, rfl⟩
  | reported => exact Or.inl rfl

theorem assessed_standing
    (showTree : Bool) (s : Repl)
    (registry : Ledger String (Option Listing)) (line : String) :
    (standing showTree s registry).assessed line =
      (s.joined line, Continuation.isOpen (s.joined line).toList) := by
  by_cases h : s.text = ""
  · simp only [assessed, standing, Repl.pending_of_eq h, Continuation.assess,
      Repl.joined, if_pos h]
  · simp only [assessed, standing, Repl.pending_of_ne h, Continuation.assess,
      Repl.joined, if_neg h]

theorem assessedLine_standing
    (showTree : Bool) (s : Repl) (registry : Ledger String (Option Listing)) :
    (standing showTree s registry).assessedLine = s.joinedLine := by
  by_cases h : s.text = ""
  · simp only [assessedLine, standing, Repl.pending_of_eq h, Repl.joinedLine, if_pos h]
  · simp only [assessedLine, standing, Repl.pending_of_ne h, Repl.joinedLine, if_neg h]

/-- One line is answered as by the loop, and it changes the registry by what comes
of it. -/
theorem submit_standing
    (showTree : Bool) {registry : Ledger String (Option Listing)} (style : Style)
    (s : Repl) (line : String)
    (hregistry : OnlyInput registry) :
    (standing showTree s registry).submit style line =
      ⟨(s.step showTree style line).1, .handled,
        standing showTree (s.step showTree style line).2
          (registered registry (s.outcome line))⟩ := by
  rw [submit_eq_assessed, assessed_standing, assessedLine_standing]
  by_cases hopen : Continuation.isOpen (s.joined line).toList = true
  · have htext : s.joined line ≠ "" := by
      intro hempty
      rw [hempty] at hopen
      cases hopen
    simp only [Repl.step, Repl.outcome, if_pos hopen, holdBack, standing,
      Repl.pending, if_neg htext, registered]
  · by_cases htext : s.joined line = ""
    · simp only [Repl.step, Repl.outcome, if_neg hopen, if_pos htext, registered]
      rfl
    · simp only [Repl.step, Repl.outcome, if_neg hopen, if_neg htext]
      rw [execute_idle (rfl : _ = idle showTree s.chain registry) hregistry htext]
      cases evaluateSource (s.joined line) s.chain with
      | ok value chain => rfl
      | error fault chain => rfl

theorem StandsAt.submit
    {showTree : Bool} {s : Repl} {d : Dialogue}
    (h : StandsAt showTree s d)
    (style : Style) (line : String) :
    (d.submit style line).output = (s.step showTree style line).1 ∧
      (d.submit style line).answer = .handled ∧
      StandsAt showTree (s.step showTree style line).2 (d.submit style line).dialogue := by
  obtain ⟨registry, hregistry, rfl⟩ := h
  simp only [submit_standing showTree style s line hregistry, true_and]
  exact ⟨registered registry (s.outcome line), hregistry.registered (s.outcome line), rfl⟩

theorem StandsAt.assessed_eq
    {showTree : Bool} {s : Repl} {d : Dialogue}
    (h : StandsAt showTree s d)
    (line : String) :
    d.assessed line = (s.joined line, Continuation.isOpen (s.joined line).toList) := by
  obtain ⟨registry, _, rfl⟩ := h
  exact assessed_standing showTree s registry line

theorem standsAt_fresh
    (showTree : Bool) :
    StandsAt showTree Repl.start (fresh showTree) := by
  exact ⟨[(Workspace.inputPath, none)], Or.inr ⟨none, rfl⟩, rfl⟩

/-- The dialogue and the loop stay together. -/
theorem StandsAt.after
    {showTree : Bool} {s : Repl} {d : Dialogue}
    (h : StandsAt showTree s d)
    (style : Style) (lines : List String) :
    StandsAt showTree (s.after showTree style lines) (d.after style lines) := by
  induction lines generalizing s d with
  | nil => exact h
  | cons line lines ih =>
      rw [Repl.after_cons, after_cons]
      exact ih (h.submit style line).2.2

theorem StandsAt.chain_eq
    {showTree : Bool} {s : Repl} {d : Dialogue}
    (h : StandsAt showTree s d) :
    d.workspace.chain = s.chain := by
  obtain ⟨registry, _, rfl⟩ := h
  rfl

/--
After any lines, a fresh dialogue takes the next one as the loop does: it prints the same
and leaves the same chain of scopes.
-/
theorem submit_refines_repl
    (showTree : Bool) (style : Style) (lines : List String) (line : String) :
    let d := (fresh showTree).after style lines
    let s := Repl.start.after showTree style lines
    (d.submit style line).answer = .handled ∧
      (d.submit style line).output = (s.step showTree style line).1 ∧
      (d.submit style line).dialogue.workspace.chain =
        (s.step showTree style line).2.chain ∧
      ∀ fault, parse (s.joined line) = .error fault →
        (d.submit style line).dialogue.workspace.chain = d.workspace.chain := by
  intro d s
  have hstands : StandsAt showTree s d := (standsAt_fresh showTree).after style lines
  obtain ⟨houtput, hanswer, hnext⟩ := hstands.submit style line
  refine ⟨hanswer, houtput, hnext.chain_eq, ?_⟩
  intro fault hparse
  rw [hnext.chain_eq, Repl.chain_step_of_parse_error showTree style hparse,
    hstands.chain_eq]

/-- After an empty line, a parenthesis is held back until the next line. Together they are
refused on the third. -/
theorem submit_refines_repl_held :
    let d := (fresh false).after .plain ["", "("]
    parse "(\n)" = .error ⟨.unexpectedToken ")", ⟨2, 1⟩⟩ ∧
      (d.submit .plain ")").output = "<in>:3:1: error: unexpected token ')'\n  )\n  ^\n" ∧
      (d.submit .plain ")").dialogue.workspace.chain = d.workspace.chain := by
  have hjoined : (Repl.start.after false .plain ["", "("]).joined ")" = "(\n)" := by
    rfl
  have hline : (Repl.start.after false .plain ["", "("]).joinedLine = 2 := by
    rfl
  have htokens : tokenize "(\n)" =
      .ok ⟨[⟨.openParen, ⟨1, 1⟩⟩, ⟨.closeParen, ⟨2, 1⟩⟩], ⟨2, 2⟩⟩ := by
    decide +kernel
  have hparse : parse "(\n)" = .error ⟨.unexpectedToken ")", ⟨2, 1⟩⟩ :=
    (parse_of_tokenize htokens).trans rfl
  have hopen : Continuation.isOpen "(\n)".toList = false := by
    rfl
  obtain ⟨_, houtput, _, hchain⟩ := submit_refines_repl false .plain ["", "("] ")"
  refine ⟨hparse, houtput.trans ?_, hchain _ (by rw [hjoined, hparse])⟩
  simp only [Repl.step, hjoined, hline, hopen, evaluateSource, hparse, Repl.shown]
  rfl

end Dialogue
end LetLang
