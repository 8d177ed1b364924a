import LetLang.Proofs.Dialogue.Command
import LetLang.Proofs.Tree.Machine

/-!
# A dialogue survives every line

A dialogue is written once more on the machine that can break down. If it breaks down while
a text is read or evaluated or while a value is printed, this is reported as an internal
error, which ends the run. If it breaks down while an error is reported, nothing catches
it. By `Checked.respond_eq` neither happens, in whatever state the dialogue is. And from a
fresh dialogue on, no line ends the run in any other way: an error is reported and the
dialogue goes on, until a line is one of two words.
-/

namespace LetLang

namespace Trap

/-- What has happened. -/
def description : Trap → String
  | missingKey => "missing key"
  | missingItem => "missing item"
  | zeroDivisor => "zero divisor"
  | outOfDomain => "out of domain"
  | notFinite => "not finite"
  | notNumeral => "not a numeral"
  | malformedTemplate => "malformed template"

/-- How a guarded piece of work ends when the machine breaks down. -/
def ending (t : Trap) : Ending := .crashed t.description

end Trap

/-- How a guarded piece of work ends when it stops. -/
def Stop.ending : Stop Fault → Ending
  | .trap t => t.ending
  | .fault f => .failed (.ofFault f)

namespace Machine

/-- The item of a list at a place. Below zero, places count back from the end. -/
def itemAt {α : Type} (xs : List α) (i : Int) : Except Trap α :=
  if 0 ≤ i then item xs i.toNat
  else if 0 ≤ i + xs.length then item xs (i + xs.length).toNat
  else .error .missingItem

/-- The table without the entry under a key. -/
def without {κ α : Type} [DecidableEq κ] (key : κ) : Ledger κ α → Except Trap (Ledger κ α)
  | [] => .error .missingKey
  | (k, a) :: rest => if k = key then .ok rest else (without key rest).map ((k, a) :: ·)

/-- The first item of a list, and the others. -/
def takeFirst {α : Type} : List α → Except Trap (α × List α)
  | [] => .error .missingItem
  | a :: rest => .ok (a, rest)

end Machine

namespace Checked

section Reports

/-- The source line of a diagnostic, which is looked up among the lines, with the marked
part set apart. -/
def excerpt (d : Diagnostic) (style : Style) (accent : Accent)
    (source : String) : Except Trap String := do
  let (number, column) := d.place (some source)
  let lines := Text.lines source.toList
  let line ← Machine.itemAt lines (min number lines.length - 1)
  let start := (column - 1).toNat
  let width := (max d.length 1).toNat
  let before := String.ofList (line.take start)
  let marked := String.ofList ((line.drop start).take width)
  let after := String.ofList (line.drop (start + width))
  let gap := String.ofList (List.replicate start ' ')
  let caret := String.ofList ('^' :: List.replicate (width - 1) '~')
  return "  " ++ before ++ style.paint accent marked ++ after ++ "\n" ++ "  " ++
    gap ++ style.paint accent caret

theorem itemAt_lines
    {number : Int} (cs : List Char)
    (h : 0 < number) :
    Machine.itemAt (Text.lines cs) (min number (Text.lines cs).length - 1) =
      .ok (Diagnostic.pickLine (Text.lines cs) number) := by
  have hlength : 0 < (Text.lines cs).length :=
    List.length_pos_iff.mpr (Text.lines_ne_nil cs)
  have hindex : 0 ≤ min number (Text.lines cs).length - 1 := by
    omega
  have hlt : (min number (Text.lines cs).length - 1).toNat < (Text.lines cs).length := by
    omega
  have hnonneg : ¬ min number ((Text.lines cs).length : Int) - 1 < 0 := by
    omega
  simp only [Machine.itemAt, if_pos hindex, Machine.item,
    Diagnostic.pickLine, if_neg hnonneg, List.getD_eq_getElem?_getD,
    List.getElem?_eq_getElem hlt, Option.getD_some]

/-- A line is found for every diagnostic that has a place. -/
theorem excerpt_eq
    {d : Diagnostic} (style : Style) (accent : Accent) (source : String)
    (h : 0 < d.line) :
    excerpt d style accent source = .ok (d.excerpt style accent source) := by
  have hplace : d.place (some source) = (d.line, d.column) := by
    have hne : d.line ≠ 0 := by
      omega
    simp [Diagnostic.place, hne]
  simp only [excerpt, Diagnostic.excerpt, hplace, itemAt_lines source.toList h]
  rfl

/-- The text of an error report. -/
def report (r : Reporter) (style : Style) (d : Diagnostic) : Except Trap String := do
  let mark := if d.isInternal = true then style.paint .red "[internal] " else ""
  let below ←
    match r.shownSource? d with
    | some source => (excerpt d style .red source).map (· ++ "\n")
    | none => .ok ""
  return r.header style d ++ mark ++ style.paint .red "error: " ++
    d.message.render style ++ "\n" ++ below

theorem report_eq
    (r : Reporter) (style : Style) {d : Diagnostic}
    (h : 0 ≤ d.line) :
    report r style d = .ok (r.report style .error d) := by
  have hbelow : ∀ source, r.shownSource? d = some source → 0 < d.line := by
    intro source hsource
    unfold Reporter.shownSource? at hsource
    split at hsource
    · cases hsource
    · split at hsource
      · rename_i hguard
        have hne := hguard.2.2.2
        omega
      · cases hsource
  unfold report Reporter.report
  cases hsource : r.shownSource? d with
  | none => simp only [true_and]; rfl
  | some source =>
      simp only [excerpt_eq style .red source (hbelow source hsource), true_and]
      rfl

/-- Reports an error. -/
def throw (r : Reporter) (style : Style) (d : Diagnostic) : Except Trap Reported := do
  let output ← report r style d
  if r.fatal || d.isInternal then
    return ⟨output, some (some 1), r⟩
  else
    return ⟨output, none, { r with registry := [] }⟩

theorem throw_eq
    (r : Reporter) (style : Style) {d : Diagnostic}
    (h : 0 ≤ d.line) :
    throw r style d = .ok (r.throw style d) := by
  rw [throw, report_eq r style h, Reporter.throw]
  change (if _ then _ else _) = _
  split
  · rfl
  · rfl

/-- Reports how a guarded piece of work ended, after its output. -/
def settle (d : Dialogue) (style : Style) (output : String) (w : Workspace)
    (ending : Ending) (answer : Answer) :
    Except Trap Reply := do
  let reported ←
    match ending with
    | .finished => .ok ⟨"", none, w.reporter⟩
    | .exited code => .ok ⟨"", some code, w.reporter⟩
    | .failed d => throw w.reporter style d
    | .interrupted => throw w.reporter style .interrupted
    | .tooDeep => throw w.reporter style .tooDeep
    | .crashed description => throw w.reporter style (.crash description)
  return {
    output := output ++ reported.output
    answer :=
      match reported.exit with
      | some code => .exit code
      | none => answer
    dialogue := { d with workspace := { w with reporter := reported.reporter } } }

theorem settle_failed
    (d : Dialogue) (style : Style) (output : String) (w : Workspace)
    (answer : Answer) {diagnostic : Diagnostic}
    (h : 0 ≤ diagnostic.line) :
    settle d style output w (.failed diagnostic) answer =
      .ok (d.settle style output w (.failed diagnostic) answer) := by
  simp only [settle, throw_eq w.reporter style h]
  rfl

end Reports

section Programs

/-- Outcomes of the language as outcomes on the machine. -/
def outcome {σ α : Type} : EStateM.Result Fault σ α → EStateM.Result (Stop Fault) σ α
  | .ok a s => .ok a s
  | .error fault s => .error (.fault fault) s

/-- Reads a text that starts on that line and queues it. -/
def add (source : String) (line : Int) : EStateM (Stop Fault) Workspace Node := fun w =>
  match parse source with
  | .error stop =>
      .error stop { w with reporter := w.reporter.registerLine w.path source line }
  | .ok program =>
    .ok program { w with
      reporter := (w.reporter.registerLine w.path source line).registerFile w.path
      queue := Ledger.put line ⟨source, program⟩ w.queue }

theorem add_eq
    (source : String) (line : Int) (w : Workspace) :
    add source line w = outcome (Workspace.add source line w) := by
  rw [add, parse_eq, Workspace.add]
  cases LetLang.parse source with
  | ok program => rfl
  | error fault => rfl

/-- Evaluates programs in order, takes each of them out of the queue and keeps
its value. -/
def runEntries : Ledger Int Entry → EStateM (Stop Fault) Workspace Unit
  | [], w => .ok () w
  | (line, entry) :: rest, w =>
    let reporter := w.reporter.registerLine w.path entry.source line
    let result := evaluate entry.program w.chain
    match Machine.without line w.queue with
    | .error t => .error (.trap t) { w with reporter }
    | .ok queue =>
      match result with
      | .error stop chain => .error stop { w with reporter, chain, queue }
      | .ok value chain =>
        runEntries rest { w with
          reporter := reporter.registerFile w.path, chain, queue,
          results := w.results ++ [value] }

/-- A program is found in the queue when it is to be taken out of it. -/
theorem runEntries_eq
    {entries : Ledger Int Entry} {w : Workspace}
    (h : w.queue = entries) :
    runEntries entries w = outcome (Workspace.runEntries entries w) := by
  induction entries generalizing w with
  | nil =>
      obtain ⟨reporter, path, showTree, chain, queue, results⟩ := w
      cases h
      rfl
  | cons head rest ih =>
      obtain ⟨line, entry⟩ := head
      have hwithout : Machine.without line w.queue = .ok rest := by
        rw [h, Machine.without, if_pos rfl]
      simp only [runEntries, Workspace.runEntries, hwithout, evaluate_eq, embed]
      cases entry.program.evaluate w.chain with
      | error fault chain => rfl
      | ok value chain => exact ih rfl

/-- Evaluates all queued programs. -/
def run : EStateM (Stop Fault) Workspace Unit := fun w =>
  runEntries w.queue w

end Programs

section Lines

/-- Reads and evaluates a complete text that starts on that line, and prints the
oldest value. -/
def execute (d : Dialogue) (style : Style) (text : String)
    (firstLine : Nat) : Except Trap Reply :=
  match add text firstLine d.workspace with
  | .error stop w => settle d style "" w stop.ending .handled
  | .ok program w =>
    let shown := w.shown program
    match run w with
    | .error stop w => settle d style shown w stop.ending .handled
    | .ok () w =>
      if w.results.isEmpty then
        settle d style shown w .finished .handled
      else
        match Machine.takeFirst w.results with
        | .error t => settle d style shown w t.ending .handled
        | .ok (value, results) =>
          match Checked.text value with
          | .error t => settle d style shown { w with results } t.ending .handled
          | .ok printed =>
              settle d style (shown ++ printed ++ "\n")
                { w with results } .finished .handled

theorem settle_fault
    (d : Dialogue) (style : Style) (output : String) (w : Workspace) (fault : Fault) :
    settle d style output w (Stop.fault fault).ending .handled =
      .ok (d.settle style output w (.failed (.ofFault fault)) .handled) := by
  exact settle_failed d style output w .handled (Int.natCast_nonneg fault.pos.line)

theorem execute_eq
    (d : Dialogue) (style : Style) (text : String) (firstLine : Nat) :
    execute d style text firstLine = .ok (d.execute style text firstLine) := by
  unfold execute Dialogue.execute
  rw [add_eq]
  cases Workspace.add text firstLine d.workspace with
  | error fault w => exact settle_fault d style "" w fault
  | ok program w =>
      simp only [outcome, run, Workspace.run, runEntries_eq (rfl : w.queue = w.queue)]
      cases Workspace.runEntries w.queue w with
      | error fault w' => exact settle_fault d style (w.shown program) w' fault
      | ok _ w' =>
          obtain ⟨reporter, path, showTree, chain, queue, results⟩ := w'
          cases results with
          | nil => rfl
          | cons value results =>
              simp only [List.isEmpty_cons, Machine.takeFirst, text_eq, Workspace.pop?]
              rfl

/-- Takes a line of program text. -/
def submit (d : Dialogue) (style : Style) (line : String) : Except Trap Reply :=
  let (text, more) := d.assessed line
  if more then
    .ok ⟨"", .handled, d.holdBack text d.assessedLine⟩
  else if text = "" then
    .ok ⟨"", .handled, d.release⟩
  else
    execute d.release style text d.assessedLine

theorem submit_eq
    (d : Dialogue) (style : Style) (line : String) :
    submit d style line = .ok (d.submit style line) := by
  rw [Dialogue.submit_eq_assessed]
  by_cases hmore : (d.assessed line).2 = true
  · simp only [submit, if_pos hmore]
  · by_cases htext : (d.assessed line).1 = ""
    · simp only [submit, if_neg hmore, if_pos htext]
    · simp only [submit, if_neg hmore, if_neg htext, execute_eq]

/-- The diagnostic of something that a command does not take, whose message is
formatted first. -/
def unrecognized (argument : String) : Except Trap Diagnostic := do
  let _ ← Machine.format [argument] [] "unrecognized token: '\x7b\x7d'".toList
  return .unrecognized argument

theorem unrecognized_eq
    (argument : String) :
    unrecognized argument = .ok (.unrecognized argument) := by
  have hslotted : (Diagnostic.unrecognized argument).message.slotted =
      "unrecognized token: '\x7b\x7d'".toList := by
    dsimp only [Diagnostic.unrecognized, Diagnostic.unplaced, Message.slotted]
    decide +kernel
  have hplain : (Diagnostic.unrecognized argument).message.all Message.isPlain = true := by
    simp [Diagnostic.unrecognized, Diagnostic.unplaced, Message.isPlain]
  have hslots : (Diagnostic.unrecognized argument).message.slots = [argument] := by
    rfl
  obtain ⟨m, hformat, _⟩ := Message.exists_format_slotted [] [] hplain
  rw [hslotted, hslots, List.append_nil] at hformat
  rw [unrecognized, hformat]
  rfl

/-- The command `exit`, which takes no argument. -/
def leave (d : Dialogue) (style : Style) (argument : String) : Except Trap Reply :=
  if argument = "" then
    .ok ⟨"Goodbye!\n", .stop, d⟩
  else
    match unrecognized argument with
    | .error t => settle d style "" d.workspace t.ending .refused
    | .ok diagnostic => settle d style "" d.workspace (.failed diagnostic) .refused

theorem leave_eq
    (d : Dialogue) (style : Style) (argument : String) :
    leave d style argument = .ok (d.leave style argument) := by
  by_cases h : argument = ""
  · simp only [leave, Dialogue.leave, if_pos h]
  · simp only [leave, Dialogue.leave, if_neg h, unrecognized_eq]
    exact settle_failed d style "" d.workspace .refused (le_refl 0)

/-- Carries out a line that is not blank. -/
def dispatch (d : Dialogue) (style : Style) (line : String) : Except Trap Reply :=
  let name := line.toList.takeWhile Dialogue.isCommandChar
  let argument := Text.trim (String.ofList (line.toList.drop name.length))
  if name = "help".toList ∧ argument = "" then
    .ok ⟨Dialogue.helpText ++ "\n", .handled, d⟩
  else if name = "EOF".toList ∧ argument = "" then do
    let reply ← leave d style ""
    return { reply with output := "\n" ++ reply.output }
  else if name = "exit".toList then
    leave d style argument
  else
    submit d style line

theorem dispatch_eq
    (d : Dialogue) (style : Style) (line : String) :
    dispatch d style line = .ok (d.dispatch style line) := by
  simp only [dispatch, Dialogue.dispatch, leave_eq, submit_eq]
  generalize line.toList.takeWhile Dialogue.isCommandChar = name
  generalize Text.trim (String.ofList (line.toList.drop name.length)) = argument
  by_cases hhelp : name = "help".toList ∧ argument = ""
  · simp only [if_pos hhelp]
  · by_cases hclose : name = "EOF".toList ∧ argument = ""
    · simp only [if_neg hhelp, if_pos hclose]
      rfl
    · by_cases hexit : name = "exit".toList
      · simp only [if_neg hhelp, if_neg hclose, if_pos hexit]
      · simp only [if_neg hhelp, if_neg hclose, if_neg hexit]

/-- Takes a line. -/
def respond (d : Dialogue) (style : Style) (line : String) : Except Trap Reply :=
  let text := Text.trim line
  match text.toList with
  | [] => .ok ⟨"", .blank, d⟩
  | '?' :: rest => dispatch d style ("help " ++ String.ofList rest)
  | '!' :: _ => submit d style text
  | _ => dispatch d style text

/-- In whatever state a dialogue is, no line breaks the machine down. -/
theorem respond_eq
    (d : Dialogue) (style : Style) (line : String) :
    respond d style line = .ok (d.respond style line) := by
  unfold respond Dialogue.respond
  generalize Text.trim line = text
  dsimp only
  cases text.toList with
  | nil => rfl
  | cons c rest =>
      by_cases hquestion : c = '?'
      · subst hquestion
        exact dispatch_eq d style _
      · by_cases hmark : c = '!'
        · subst hmark
          exact submit_eq d style text
        · simp only [List.cons.injEq, hquestion, hmark, false_and, imp_self,
            implies_true, dispatch_eq]

/-- Hears lines in order. -/
def heard (style : Style) (d : Dialogue) (lines : List String) : Except Trap Dialogue :=
  lines.foldlM (fun d line => (respond d style line).map Reply.dialogue) d

theorem heard_eq
    (style : Style) (d : Dialogue) (lines : List String) :
    heard style d lines = .ok (d.heard style lines) := by
  induction lines generalizing d with
  | nil => rfl
  | cons line lines ih =>
      rw [heard, List.foldlM_cons, respond_eq, Dialogue.heard_cons]
      exact ih (d.respond style line).dialogue

end Lines
end Checked

theorem Command.answer_mem
    (command : Command) :
    command.answer ∈ [Answer.handled, .blank, .refused, .stop] := by
  cases command <;> simp [answer]

namespace Dialogue

/-- A dialogue that stands where the loop stands goes on after an error. -/
theorem StandsAt.fatal_eq
    {showTree : Bool} {s : Repl} {d : Dialogue}
    (h : StandsAt showTree s d) :
    d.workspace.reporter.fatal = false := by
  obtain ⟨registry, _, rfl⟩ := h
  rfl

/--
A fresh dialogue survives all lines: the machine does not break down and the run does not
end. Only the words `exit` and `EOF` stop the dialogue.
-/
theorem respond_survives
    (showTree : Bool) (style : Style) (lines : List String) (line : String) :
    let d := (fresh showTree).heard style lines
    let reply := d.respond style line
    Checked.heard style (fresh showTree) lines = .ok d ∧
      Checked.respond d style line = .ok reply ∧
      reply.answer ∈ [Answer.handled, .blank, .refused, .stop] ∧
      (reply.answer = .stop ↔ Text.trim line = "exit" ∨ Text.trim line = "EOF") ∧
      reply.dialogue.workspace.reporter.fatal = false := by
  intro d reply
  have hstands := (standsAt_fresh showTree).heard style lines
  obtain ⟨hanswer, hnext⟩ := hstands.perform style (.ofLine line)
  rw [← respond_eq] at hanswer hnext
  refine ⟨Checked.heard_eq style (fresh showTree) lines, Checked.respond_eq d style line,
    ?_, ?_, hnext.fatal_eq⟩
  · rw [hanswer]
    exact Command.answer_mem _
  · rw [hanswer]
    exact Command.answer_ofLine_eq_stop_iff line

end Dialogue
end LetLang
