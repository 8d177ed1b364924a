import LetLang.Proofs.Dialogue.Command
import LetLang.Proofs.Dialogue.Continuation
import LetLang.Proofs.Workspace.Colour

/-!
# Colour changes only the look

All that a line leads to is told by work that knows no style: what is printed first, the
dialogue afterwards, and how the work ends. The style comes in where the end is reported.
So with and without colour a dialogue goes through the same states and gives the same
answers and errors, and what it prints with colour is what it prints without, once the
escape sequences are taken out. These are the only sequences that are printed, since no
line has any and evaluation makes none.
-/

namespace LetLang

open Text

/-- The work that a line asks for: what it prints, the dialogue after it, how it ends and
what it answers if it does not end the run. -/
structure Work where
  output : String
  dialogue : Dialogue
  ending : Ending
  answer : Answer

/-- The reply to a line: the output of the work and the report of its end. -/
def Work.reply (style : Style) (work : Work) : Reply :=
  work.dialogue.settle style work.output work.dialogue.workspace work.ending work.answer

namespace Dialogue

/-- Reads and evaluates a complete text. -/
def execution (d : Dialogue) (text : String) (firstLine : Nat) : Work :=
  match d.workspace.add text firstLine with
  | .error fault w => ⟨"", { d with workspace := w }, .failed (.ofFault fault), .handled⟩
  | .ok program w =>
    let shown := w.shown program
    match w.run with
    | .error fault w =>
        ⟨shown, { d with workspace := w }, .failed (.ofFault fault), .handled⟩
    | .ok () w =>
      match w.pop? with
      | none => ⟨shown, { d with workspace := w }, .finished, .handled⟩
      | some (value, w) =>
          ⟨shown ++ value.text ++ "\n", { d with workspace := w }, .finished, .handled⟩

/-- The work of a command. -/
def work (d : Dialogue) : Command → Work
  | .nothing => ⟨"", d, .finished, .blank⟩
  | .help => ⟨helpText ++ "\n", d, .finished, .handled⟩
  | .leave => ⟨"Goodbye!\n", d, .finished, .stop⟩
  | .close => ⟨"\nGoodbye!\n", d, .finished, .stop⟩
  | .refused argument => ⟨"", d, .failed (.unrecognized argument), .refused⟩
  | .program line =>
    if (d.assessed line).2 then
      ⟨"", d.holdBack (d.assessed line).1 d.assessedLine, .finished, .handled⟩
    else if (d.assessed line).1 = "" then
      ⟨"", d.release, .finished, .handled⟩
    else
      d.release.execution (d.assessed line).1 d.assessedLine

theorem reply_finished
    (style : Style) (output : String) (d : Dialogue) (answer : Answer) :
    Work.reply style ⟨output, d, .finished, answer⟩ = ⟨output, answer, d⟩ := by
  simp only [Work.reply, settle, Reporter.settle, String.append_empty]

theorem execute_eq_reply
    (d : Dialogue) (style : Style) (text : String) (firstLine : Nat) :
    d.execute style text firstLine = (d.execution text firstLine).reply style := by
  unfold execute execution
  cases d.workspace.add text firstLine with
  | error fault w => rfl
  | ok program w =>
      dsimp only
      cases w.run with
      | error fault w => rfl
      | ok result w =>
          dsimp only
          cases w.pop? with
          | none => rfl
          | some taken => rfl

/-- The reply to a line is the work that it asks for, and then the report of how the
work ends. -/
theorem respond_eq_reply
    (d : Dialogue) (style : Style) (line : String) :
    d.respond style line = (d.work (.ofLine line)).reply style := by
  rw [respond_eq]
  cases Command.ofLine line with
  | nothing => exact (reply_finished ..).symm
  | help => exact (reply_finished ..).symm
  | leave => exact (reply_finished ..).symm
  | close => exact (reply_finished ..).symm
  | refused argument => rfl
  | program text =>
      rw [perform, submit_eq_assessed, work]
      split
      · exact (reply_finished ..).symm
      · split
        · exact (reply_finished ..).symm
        · exact execute_eq_reply _ style _ _

/-- Nothing that the dialogue holds has an escape character. -/
structure Unescaped (d : Dialogue) : Prop where
  workspace : d.workspace.Unescaped
  pending : ∀ p ∈ d.pending, Text.Unescaped p.text

end Dialogue

/-- Nothing that the work holds has an escape character. -/
structure Work.Unescaped (work : Work) : Prop where
  output : Text.Unescaped work.output
  dialogue : work.dialogue.Unescaped
  ending : work.ending.Unescaped

theorem Ending.unescaped_finished :
    Ending.finished.Unescaped := by
  intro d hd
  cases hd

/-- The argument or the text of the command has no escape character. -/
def Command.Unescaped : Command → Prop
  | refused argument => Text.Unescaped argument
  | program text => Text.Unescaped text
  | nothing | help | leave | close => True

theorem Command.unescaped_ofLine
    {line : String}
    (h : Text.Unescaped line) :
    (ofLine line).Unescaped := by
  have htrim : Text.Unescaped (Text.trim line) := h.of_subset fun _ => Text.mem_of_mem_trim
  unfold ofLine
  generalize Text.trim line = text at htrim
  dsimp only
  split
  · trivial
  · split
    · trivial
    · split
      · trivial
      · split
        · trivial
        · split
          · rename_i rest hlist
            refine unescaped_append_iff.mpr
              ⟨by decide, unescaped_ofList_iff.mpr fun hmem => htrim ?_⟩
            rw [hlist]
            exact List.mem_cons_of_mem _ hmem
          · rename_i rest hlist
            split
            · exact htrim
            · refine Text.Unescaped.of_subset htrim fun c hc => ?_
              have hmem := Text.mem_of_mem_trim hc
              rw [String.toList_ofList] at hmem
              rw [hlist]
              simp [hmem]
          · exact htrim

namespace Dialogue

variable {d : Dialogue}

theorem Unescaped.assessed
    {line : String}
    (hd : d.Unescaped)
    (hline : Text.Unescaped line) :
    Text.Unescaped (d.assessed line).1 := by
  have htrim : ∀ {text : String}, Text.Unescaped text →
      Text.Unescaped (Text.trimEnd text) := by
    intro text htext
    obtain ⟨blanks, hsplit, _⟩ := Text.exists_trimEnd_append text
    refine htext.of_subset ?_
    rw [hsplit]
    exact List.subset_append_left _ _
  unfold Dialogue.assessed
  cases hpending : d.pending with
  | none => exact htrim hline
  | some p =>
      refine htrim
        (unescaped_append_iff.mpr ⟨unescaped_append_iff.mpr ⟨?_, by decide⟩, hline⟩)
      exact hd.pending p hpending

theorem Unescaped.execution
    {text : String}
    (hd : d.Unescaped)
    (htext : Text.Unescaped text)
    (firstLine : Nat) :
    (d.execution text firstLine).Unescaped := by
  have hadded := hd.workspace.add htext firstLine
  have hempty : Text.Unescaped "" := by decide
  unfold Dialogue.execution
  cases hadd : d.workspace.add text firstLine with
  | error fault w =>
      rw [hadd] at hadded
      exact ⟨hempty, ⟨hadded.2, hd.pending⟩, Ending.unescaped_ofFault hadded.1⟩
  | ok program w =>
      rw [hadd] at hadded
      have hshown := w.unescaped_shown hadded.1
      have hends := hadded.2.run
      dsimp only
      cases hrun : w.run with
      | error fault w =>
          rw [hrun] at hends
          exact ⟨hshown, ⟨hends.2, hd.pending⟩, Ending.unescaped_ofFault hends.1⟩
      | ok result w =>
          rw [hrun] at hends
          dsimp only
          cases hpop : w.pop? with
          | none => exact ⟨hshown, ⟨hends.2, hd.pending⟩, Ending.unescaped_finished⟩
          | some taken =>
              obtain ⟨hvalue, hw⟩ := hends.2.pop? hpop
              refine ⟨?_, ⟨hw, hd.pending⟩, Ending.unescaped_finished⟩
              exact unescaped_append_iff.mpr
                ⟨unescaped_append_iff.mpr ⟨hshown, hvalue⟩, by decide⟩

theorem unescaped_helpText :
    Text.Unescaped helpText := by
  -- line by line and as lists of characters, since the whole text takes long to decide
  refine unescaped_append_iff.mpr
    ⟨unescaped_append_iff.mpr ⟨unescaped_append_iff.mpr ⟨unescaped_append_iff.mpr
    ⟨unescaped_append_iff.mpr ⟨?_, ?_⟩, ?_⟩, ?_⟩, ?_⟩, ?_⟩
  all_goals exact unescaped_ofList_iff.mpr (by decide)

/-- A command without escape characters asks for work without them. -/
theorem Unescaped.work
    {command : Command}
    (hd : d.Unescaped)
    (hcommand : command.Unescaped) :
    (d.work command).Unescaped := by
  have hempty : Text.Unescaped "" := by decide
  have hhelp : Text.Unescaped (helpText ++ "\n") :=
    unescaped_append_iff.mpr ⟨unescaped_helpText, by decide⟩
  have hleave : Text.Unescaped "Goodbye!\n" := by decide
  have hclose : Text.Unescaped "\nGoodbye!\n" := by decide
  have hnone : ∀ p ∈ (none : Option Pending), Text.Unescaped p.text := by simp
  cases command with
  | nothing => exact ⟨hempty, hd, Ending.unescaped_finished⟩
  | help => exact ⟨hhelp, hd, Ending.unescaped_finished⟩
  | leave => exact ⟨hleave, hd, Ending.unescaped_finished⟩
  | close => exact ⟨hclose, hd, Ending.unescaped_finished⟩
  | refused argument =>
      refine ⟨hempty, hd, Ending.unescaped_failed ?_⟩
      exact Message.unescaped_of_slots rfl (List.forall_mem_singleton.mpr hcommand)
  | program line =>
      have htext := hd.assessed hcommand
      rw [Dialogue.work]
      split
      · exact ⟨hempty, ⟨hd.workspace, by simpa [holdBack] using htext⟩,
          Ending.unescaped_finished⟩
      · split
        · exact ⟨hempty, ⟨hd.workspace, hnone⟩, Ending.unescaped_finished⟩
        · have hnext : d.release.Unescaped := ⟨hd.workspace, hnone⟩
          exact hnext.execution htext _

end Dialogue

/-- A line that has been answered: the reply, and the error that the line led to,
if any. -/
structure Turn where
  reply : Reply
  failure : Option Failure

/-- The same turn without escape sequences in its texts. -/
def Turn.bare (t : Turn) : Turn :=
  ⟨{ t.reply with output := withoutEscapes t.reply.output }, t.failure.map Failure.bare⟩

namespace Dialogue

/-- Answers a line. -/
def turn (style : Style) (d : Dialogue) (line : String) : Turn :=
  ⟨d.respond style line, (d.work (.ofLine line)).ending.failure? style⟩

/-- Answers lines in order, each in the state that the one before it left. -/
def turns (style : Style) (d : Dialogue) : List String → List Turn
  | [] => []
  | line :: lines => d.turn style line :: (d.respond style line).dialogue.turns style lines

variable {d : Dialogue}

theorem reply_plain
    {work : Work}
    (h : work.Unescaped) :
    work.reply .plain =
        { work.reply .coloured with
          output := withoutEscapes (work.reply .coloured).output } ∧
      (work.reply .plain).dialogue.Unescaped := by
  have hreporter := h.dialogue.workspace.reporter
  have hlook :=
    (OnlyLook.const h.output).append (Reporter.onlyLook_settle hreporter h.ending)
  obtain ⟨hexit, hafter⟩ :=
    work.dialogue.workspace.reporter.settle_eq work.ending .coloured .plain
  constructor
  · simp only [Work.reply, settle, hlook.withoutEscapes_eq, hexit, hafter]
  · have hsettled := Reporter.unescaped_settle work.ending .plain hreporter
    exact ⟨{ h.dialogue.workspace with reporter := hsettled }, h.dialogue.pending⟩

/-- One line: without colour the reply is the same as with colour, apart from the escape
sequences, and the dialogue stays without escape characters. -/
theorem respond_plain
    {line : String}
    (hd : d.Unescaped)
    (hline : Text.Unescaped line) :
    d.respond .plain line =
        { d.respond .coloured line with
          output := withoutEscapes (d.respond .coloured line).output } ∧
      (d.respond .plain line).dialogue.Unescaped := by
  rw [respond_eq_reply, respond_eq_reply]
  exact reply_plain (hd.work (Command.unescaped_ofLine hline))

theorem turn_plain
    {line : String}
    (hd : d.Unescaped)
    (hline : Text.Unescaped line) :
    d.turn .plain line = (d.turn .coloured line).bare := by
  have hwork := hd.work (Command.unescaped_ofLine hline)
  rw [turn, turn, Turn.bare, (respond_plain hd hline).1, hwork.ending.failure?_eq]

/-- Lines in order: without colour the turns are the same as with colour, apart from the
escape sequences. -/
theorem turns_plain
    {lines : List String}
    (hd : d.Unescaped)
    (hlines : ∀ line ∈ lines, Text.Unescaped line) :
    d.turns .plain lines = (d.turns .coloured lines).map Turn.bare := by
  induction lines generalizing d with
  | nil => rfl
  | cons line lines ih =>
      obtain ⟨hline, hrest⟩ := List.forall_mem_cons.mp hlines
      obtain ⟨hreply, hnext⟩ := respond_plain hd hline
      have hdialogue : (d.respond .plain line).dialogue =
          (d.respond .coloured line).dialogue := by rw [hreply]
      rw [turns, turns, List.map_cons, turn_plain hd hline, ih hnext hrest, hdialogue]

theorem unescaped_fresh
    (showTree : Bool) :
    (fresh showTree).Unescaped := by
  have hpath : Text.Unescaped Workspace.inputPath := by decide
  have hreporter : (Reporter.fresh false).Unescaped := List.forall_mem_nil _
  exact ⟨Workspace.unescaped_initial showTree (hreporter.registerFile hpath) hpath,
    by simp [fresh, start]⟩

end Dialogue

/--
Where lines, file name and contents have no escape characters, colour adds escape sequences
to what is printed and changes nothing else.
-/
theorem colour_changes_only_look :
    (∀ (d : Dialogue) (lines : List String), d.Unescaped →
      (∀ line ∈ lines, Unescaped line) →
      d.turns .plain lines = (d.turns .coloured lines).map Turn.bare) ∧
    (∀ showTree : Bool, (Dialogue.fresh showTree).Unescaped) ∧
    (∀ (d : Dialogue) (style : Style) (line : String),
      d.respond style line = (d.work (.ofLine line)).reply style) ∧
    ∀ (showTree : Bool) (path : String) (octets : Option (List UInt8)), Unescaped path →
      (∀ contents, Loaded.ofFile path octets = .text contents → Unescaped contents) →
        FileRun.start .plain path showTree (.ofFile path octets) =
          (FileRun.start .coloured path showTree (.ofFile path octets)).bare := by
  refine ⟨?_, Dialogue.unescaped_fresh, Dialogue.respond_eq_reply, ?_⟩
  · intro d lines hd hlines
    exact Dialogue.turns_plain hd hlines
  · intro showTree path octets hpath hcontents
    exact FileRun.start_plain showTree hpath (Loaded.unescaped_ofFile hcontents)

/-- A string that is held back and then subtracted from, a command that is refused, and a
file that holds the octets of `1 +`. -/
theorem colour_changes_only_look_refused :
    ((Dialogue.fresh false).respond .coloured "exit 1").output =
      "\x1b[1m<in>: \x1b[0m\x1b[1m\x1b[31merror: \x1b[0munrecognized token: '\x1b[1m1\x1b[0m'\n" ∧
    (∀ line ∈ ["\"a", "b\" - 1", "exit 1"], Unescaped line) ∧
    (Dialogue.fresh false).turns .plain ["\"a", "b\" - 1", "exit 1"] =
      ((Dialogue.fresh false).turns .coloured ["\"a", "b\" - 1", "exit 1"]).map Turn.bare ∧
    Loaded.ofFile "a" (some [0x31, 0x20, 0x2b]) = .text "1 +" ∧
      Unescaped "a" ∧ Unescaped "1 +" ∧
    FileRun.start .plain "a" true (.ofFile "a" (some [0x31, 0x20, 0x2b])) =
      (FileRun.start .coloured "a" true (.ofFile "a" (some [0x31, 0x20, 0x2b]))).bare := by
  have hlines : ∀ line ∈ ["\"a", "b\" - 1", "exit 1"], Unescaped line := by decide
  have hfile : Loaded.ofFile "a" (some [0x31, 0x20, 0x2b]) = .text "1 +" := by rfl
  have hcontents : ∀ contents, Loaded.ofFile "a" (some [0x31, 0x20, 0x2b]) =
      .text contents → Unescaped contents := by
    intro contents h
    rw [hfile] at h
    cases h
    decide
  obtain ⟨hturns, hfresh, _, hrun⟩ := colour_changes_only_look
  refine ⟨by rfl, hlines, hturns _ _ (hfresh false) hlines, hfile, by decide, by decide,
    ?_⟩
  exact hrun true "a" _ (by decide) hcontents

end LetLang
