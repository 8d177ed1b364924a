import LetLang.Proofs.Dialogue.Command
import LetLang.Proofs.Evaluation.Footprint

/-!
# What a dialogue remembers of its errors

Two dialogues that agree in the bindings of their scopes, in the text held back and in the
number of lines may have heard different lines, some of them with errors. The only trace of
these is the registry of files, which an error empties and the next text that is evaluated
fills again. Only one report shows it: an argument of `exit` is refused after the name of
the input, or without it.
-/

namespace LetLang
namespace Repl

/-- What comes of a command. -/
def outcomeOf (s : Repl) : Command → Outcome
  | .program text => s.outcome text
  | .refused _ => .reported
  | _ => .silent

/-- What comes of each line in turn. -/
def outcomes (showTree : Bool) (style : Style) (s : Repl) : List String → List Outcome
  | [] => []
  | line :: lines =>
    let command := Command.ofLine line
    s.outcomeOf command :: outcomes showTree style
      (s.after showTree style command.program?.toList) lines

/-- No error has been reported, or a text has been evaluated since. -/
def Outcome.Clear (outcomes : List Outcome) : Prop :=
  (outcomes.filter (· ≠ .silent)).getLast? ≠ some .reported

instance (outcomes : List Outcome) : Decidable (Outcome.Clear outcomes) :=
  inferInstanceAs (Decidable (_ ≠ _))

/-- What is printed for a command, after the name of the input that may precede
a refusal. -/
def printed (showTree : Bool) (style : Style) (s : Repl) : Command → String
  | .nothing => ""
  | .help => Dialogue.helpText ++ "\n"
  | .leave => "Goodbye!\n"
  | .close => "\nGoodbye!\n"
  | .refused argument =>
    style.paint .red "error: " ++ "unrecognized token: '" ++
      style.paint .bold argument ++ "'\n"
  | .program text => (s.step showTree style text).1

/-- The loops have the same bindings, in any order, the same text held back and as
many lines. -/
structure Agree (s t : Repl) : Prop where
  chain_agree : s.chain.AgreeOn (fun _ => True) t.chain
  pending_eq : s.pending = t.pending
  lineCount_eq : s.lineCount = t.lineCount

theorem text_of_pending
    (s : Repl) :
    s.pending.elim "" Pending.text = s.text := by
  by_cases h : s.text = ""
  · rw [pending_of_eq h, h]
    rfl
  · rw [pending_of_ne h]
    rfl

theorem joinedLine_of_pending
    (s : Repl) :
    s.pending.elim (s.lineCount + 1) Pending.firstLine = s.joinedLine := by
  by_cases h : s.text = ""
  · rw [pending_of_eq h, joinedLine, if_pos h]
    rfl
  · rw [pending_of_ne h, joinedLine, if_neg h]
    rfl

namespace Agree

variable {s t : Repl}

theorem joined_eq
    (h : s.Agree t)
    (line : String) :
    s.joined line = t.joined line := by
  have htext : s.text = t.text := by
    rw [← text_of_pending s, h.pending_eq, text_of_pending]
  rw [joined, joined, htext]

theorem joinedLine_eq
    (h : s.Agree t) :
    s.joinedLine = t.joinedLine := by
  rw [← joinedLine_of_pending s, h.pending_eq, h.lineCount_eq, joinedLine_of_pending]

/-- Loops that agree print the same for a line, and agree again. -/
theorem step
    (h : s.Agree t)
    (showTree : Bool) (style : Style) (line : String) :
    (s.step showTree style line).1 = (t.step showTree style line).1 ∧
      (s.step showTree style line).2.Agree (t.step showTree style line).2 := by
  have hends := respects_evaluateSource (s.joined line) s.chain t.chain h.chain_agree
  simp only [Repl.step, ← h.joined_eq line, ← h.joinedLine_eq, ← h.lineCount_eq]
  split
  · exact ⟨rfl, h.chain_agree, rfl, rfl⟩
  · split
    · exact ⟨rfl, h.chain_agree, rfl, rfl⟩
    · generalize evaluateSource (s.joined line) s.chain = r at hends ⊢
      generalize evaluateSource (s.joined line) t.chain = r' at hends ⊢
      cases hends with
      | ok value hnext => exact ⟨rfl, hnext, rfl, rfl⟩
      | error fault hnext => exact ⟨rfl, hnext, rfl, rfl⟩

theorem after
    (h : s.Agree t)
    (showTree : Bool) (style : Style) (lines : List String) :
    (s.after showTree style lines).Agree (t.after showTree style lines) := by
  induction lines generalizing s t with
  | nil => exact h
  | cons line lines ih =>
      rw [after_cons, after_cons]
      exact ih (h.step showTree style line).2

theorem printed_eq
    (h : s.Agree t)
    (showTree : Bool) (style : Style) (command : Command) :
    s.printed showTree style command = t.printed showTree style command := by
  cases command with
  | program text => exact (h.step showTree style text).1
  | _ => rfl

end Agree
end Repl

namespace Dialogue

/-- The dialogues have the same bindings in their scopes, which may have been
declared in another order, the same text held back, which starts on the same line,
and as many lines. -/
structure Agree (d e : Dialogue) : Prop where
  chain_agree : d.workspace.chain.AgreeOn (fun _ => True) e.workspace.chain
  pending_eq : d.pending = e.pending
  lineCount_eq : d.lineCount = e.lineCount

/-- The name of the input, which a refusal may begin with. -/
def heading (style : Style) (named : Prop) [Decidable named] : Command → String
  | .refused _ => if named then style.paint .bold (Workspace.inputPath ++ ": ") else ""
  | _ => ""

/-- The registry after some lines. -/
def registryAfter (outcomes : List Repl.Outcome) : Ledger String (Option Listing) :=
  if Repl.Outcome.Clear outcomes then [(Workspace.inputPath, none)] else []

theorem onlyInput_registryAfter
    (outcomes : List Repl.Outcome) :
    OnlyInput (registryAfter outcomes) := by
  unfold registryAfter
  split
  · exact Or.inr ⟨none, rfl⟩
  · exact Or.inl rfl

/-- The last outcome that is not silent decides. -/
theorem registryAfter_concat
    (outcomes : List Repl.Outcome) (outcome : Repl.Outcome) :
    registryAfter (outcomes ++ [outcome]) =
      registered (registryAfter outcomes) outcome := by
  cases outcome with
  | silent => simp [registryAfter, Repl.Outcome.Clear, registered]
  | evaluated => simp [registryAfter, Repl.Outcome.Clear, registered]
  | reported => simp [registryAfter, Repl.Outcome.Clear, registered]

/-- A refused argument is reported without a place. -/
theorem report_unrecognized
    (style : Style) (outcomes : List Repl.Outcome) (argument : String) :
    Reporter.report ⟨false, registryAfter outcomes⟩ style .error (.unrecognized argument) =
      heading style (Repl.Outcome.Clear outcomes) (.refused argument) ++
        (style.paint .red "error: " ++ "unrecognized token: '" ++
          style.paint .bold argument ++ "'\n") := by
  have hlisting : Reporter.listing? ⟨false, registryAfter outcomes⟩ = none := by
    unfold registryAfter
    split
    · rfl
    · rfl
  have hheader : Reporter.header ⟨false, registryAfter outcomes⟩ style
      (.unrecognized argument) =
      heading style (Repl.Outcome.Clear outcomes) (.refused argument) := by
    unfold registryAfter heading
    split
    · rfl
    · rfl
  have hmessage : (Diagnostic.unrecognized argument).message.render style =
      "unrecognized token: '" ++ style.paint .bold argument ++ "'" := by
    simp [Diagnostic.unrecognized, Diagnostic.unplaced, Message.render, Piece.render,
      String.append_assoc]
  rw [Reporter.report_of_listing_none style .error hlisting rfl, hheader, hmessage]
  simp only [Severity.accent, Severity.label, String.append_assoc]
  rfl

/-- A command is answered by what the loop knows. The registry only decides whether a
refusal names the input. -/
theorem perform_standing
    (showTree : Bool) (style : Style) (s : Repl)
    (outcomes : List Repl.Outcome) (command : Command) :
    (standing showTree s (registryAfter outcomes)).perform style command =
      ⟨heading style (Repl.Outcome.Clear outcomes) command ++
        s.printed showTree style command, command.answer,
        standing showTree (s.after showTree style command.program?.toList)
          (registryAfter (outcomes ++ [s.outcomeOf command]))⟩ := by
  rw [registryAfter_concat]
  cases command with
  | nothing => rfl
  | help => rfl
  | leave => rfl
  | close => rfl
  | refused argument =>
      have hrefused : (standing showTree s (registryAfter outcomes)).perform
          style (.refused argument) =
          ⟨Reporter.report ⟨false, registryAfter outcomes⟩ style .error
            (.unrecognized argument), .refused, standing showTree s []⟩ := by
        simp only [perform, settle, String.empty_append]
        rfl
      rw [hrefused, report_unrecognized]
      rfl
  | program text =>
      have hsubmit :=
        submit_standing showTree style s text (onlyInput_registryAfter outcomes)
      simp only [perform, hsubmit, heading, String.empty_append]
      rfl

/-- What a fresh dialogue remembers of the lines it has heard. -/
theorem heard_standing
    (showTree : Bool) (style : Style) (s : Repl)
    (outcomes : List Repl.Outcome) (lines : List String) :
    (standing showTree s (registryAfter outcomes)).heard style lines =
      standing showTree (s.after showTree style (Command.programs lines))
        (registryAfter (outcomes ++ s.outcomes showTree style lines)) := by
  induction lines generalizing s outcomes with
  | nil =>
      rw [Repl.outcomes, List.append_nil]
      rfl
  | cons line lines ih =>
      rw [heard_cons, respond_eq, perform_standing, ih, Command.programs_cons, Repl.after,
        Repl.after, Repl.after, List.foldl_append, Repl.outcomes, List.append_assoc]
      rfl

/-- The state of a fresh dialogue that has heard some lines. -/
theorem heard_fresh
    (showTree : Bool) (style : Style) (lines : List String) :
    (fresh showTree).heard style lines =
      standing showTree (Repl.start.after showTree style (Command.programs lines))
        (registryAfter (Repl.start.outcomes showTree style lines)) := by
  exact heard_standing showTree style Repl.start [] lines

theorem agree_standing_iff
    {showTree : Bool} {s t : Repl} {registry other : Ledger String (Option Listing)} :
    Agree (standing showTree s registry) (standing showTree t other) ↔ s.Agree t := by
  constructor
  · intro h
    exact ⟨h.chain_agree, h.pending_eq, h.lineCount_eq⟩
  · intro h
    exact ⟨h.chain_agree, h.pending_eq, h.lineCount_eq⟩

/--
Dialogues that agree answer alike and agree again, whatever errors they have reported. Only
the refusal of an argument shows whether an error has been reported since a text was last
evaluated.
-/
theorem respond_forgets_errors
    (showTree : Bool) (style : Style) (first second : List String) (line : String)
    (h : Agree ((fresh showTree).heard style first)
      ((fresh showTree).heard style second)) :
    let reply := fun lines => ((fresh showTree).heard style lines).respond style line
    let clear := fun lines => Repl.Outcome.Clear (Repl.start.outcomes showTree style lines)
    let loop := Repl.start.after showTree style (Command.programs first)
    let printed := loop.printed showTree style (.ofLine line)
    (reply first).answer = (reply second).answer ∧
      Agree (reply first).dialogue (reply second).dialogue ∧
      (reply first).output = heading style (clear first) (.ofLine line) ++ printed ∧
      (reply second).output = heading style (clear second) (.ofLine line) ++ printed := by
  intro reply clear loop printed
  simp only [reply, clear, respond_eq]
  rw [heard_fresh, heard_fresh] at h ⊢
  have hagree := agree_standing_iff.mp h
  rw [perform_standing, perform_standing]
  refine ⟨rfl, agree_standing_iff.mpr (hagree.after showTree style _), rfl, ?_⟩
  rw [← hagree.printed_eq]

/-- An error changes the order of the declarations in one dialogue, and is the last
thing that the other has heard. The bindings are the same, and only the first refusal
names the input. -/
theorem respond_forgets_errors_reordered :
    let first := ["let a = x;", "let b = pi;", "let a = \"s\";"]
    let second := ["let a = \"s\";", "let b = pi;", "c"]
    let after := fun lines => (fresh false).heard .plain lines
    let reply := fun lines => (after lines).respond .plain "exit y"
    (after first).workspace.chain ≠ (after second).workspace.chain ∧
      Agree (after first) (after second) ∧
      Agree (reply first).dialogue (reply second).dialogue ∧
      (reply first).output = "<in>: error: unrecognized token: 'y'\n" ∧
      (reply second).output = "error: unrecognized token: 'y'\n" := by
  intro first second after reply
  let text : String × Binding := ("a", ⟨.string "s", false⟩)
  let pi : String × Binding := ("b", ⟨.number 3.141592653589793, false⟩)
  have hfirst : (after first).workspace.chain =
      .single (Scope.builtins version ++ [pi, text]) := by
    decide +kernel
  have hsecond : (after second).workspace.chain =
      .single (Scope.builtins version ++ [text, pi]) := by
    decide +kernel
  have hagree : Agree (after first) (after second) := by
    refine ⟨?_, by decide +kernel, by decide +kernel⟩
    rw [hfirst, hsecond]
    refine .cons ?_ .nil
    intro name _
    by_cases hname : "a" = name
    · subst hname
      rfl
    · simp [Chain.single, Scope.find?, Scope.builtins, Ledger.get?, pi, text, hname]
  have hline : Command.ofLine "exit y" = .refused "y" := by
    rfl
  have hclear : Repl.Outcome.Clear (Repl.start.outcomes false .plain first) := by
    decide +kernel
  have hreported : ¬ Repl.Outcome.Clear (Repl.start.outcomes false .plain second) := by
    decide +kernel
  obtain ⟨_, hnext, houtput, hother⟩ :=
    respond_forgets_errors false .plain first second "exit y" hagree
  refine ⟨?_, hagree, hnext, ?_, ?_⟩
  · rw [hfirst, hsecond]
    simp [Chain.single, pi, text]
  · rw [houtput, hline]
    simp only [heading, if_pos hclear]
    rfl
  · rw [hother, hline]
    simp only [heading, if_neg hreported]
    rfl

/-- An argument of `exit` is refused in other words after it has been refused once. -/
theorem respond_depends_on_errors :
    let failed := (fresh false).heard .plain ["exit x"]
    let sound := (fresh false).heard .plain []
    Agree failed sound ∧
      (failed.respond .plain "exit x").output ≠
        (sound.respond .plain "exit x").output := by
  refine ⟨⟨.refl _ _, rfl, rfl⟩, ?_⟩
  decide

end Dialogue
end LetLang
