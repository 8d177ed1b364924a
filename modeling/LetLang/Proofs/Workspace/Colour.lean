import LetLang.Invocation
import LetLang.Proofs.Evaluation.Unescaped
import LetLang.Proofs.Report.Colour

/-!
# Colour in workspaces

A workspace without escape characters stays so when texts without them are read and run.
Whether it can be opened, what it holds and how it ends does not depend on the style, and
of what is printed the style decides only the look.
-/

namespace LetLang

open Text

namespace Workspace

/-- Nothing that the workspace holds has an escape character. -/
structure Unescaped (w : Workspace) : Prop where
  reporter : w.reporter.Unescaped
  path : Text.Unescaped w.path
  chain : w.chain.Unescaped
  queue : ∀ entry ∈ w.queue, Text.Unescaped entry.2.source ∧ entry.2.program.Unescaped
  results : ∀ v ∈ w.results, v.Unescaped

/-- The work ends without escape characters, with a result that has the property or with
a fault. -/
def EndsUnescaped {α : Type} (P : α → Prop) : EStateM.Result Fault Workspace α → Prop
  | .ok a w => P a ∧ w.Unescaped
  | .error fault w => fault.Unescaped ∧ w.Unescaped

variable {w : Workspace}

theorem Unescaped.add
    {source : String}
    (hw : w.Unescaped)
    (hsource : Text.Unescaped source)
    (line : Int) :
    EndsUnescaped Node.Unescaped (w.add source line) := by
  have hregistered := hw.reporter.registerLine line hw.path hsource
  unfold Workspace.add
  cases hparse : parse source with
  | error fault => exact ⟨Fault.unescaped_of_parse_error hsource hparse,
      { hw with reporter := hregistered }⟩
  | ok program =>
      have hprogram := Node.unescaped_of_parse hsource hparse
      refine ⟨hprogram,
        { hw with reporter := hregistered.registerFile hw.path, queue := ?_ }⟩
      exact Ledger.forall_mem_put ⟨hsource, hprogram⟩ hw.queue

/-- One program after the other keeps the workspace without escape characters. -/
theorem Unescaped.runEntries
    {entries : Ledger Int Entry}
    (hw : w.Unescaped)
    (hentries : ∀ entry ∈ entries, Text.Unescaped entry.2.source ∧
      entry.2.program.Unescaped) :
    EndsUnescaped (fun _ => True) (Workspace.runEntries entries w) := by
  induction entries generalizing w with
  | nil => exact ⟨trivial, { hw with queue := List.forall_mem_nil _ }⟩
  | cons first rest ih =>
      obtain ⟨line, entry⟩ := first
      obtain ⟨⟨hsource, hprogram⟩, hrest⟩ := List.forall_mem_cons.mp hentries
      have hregistered := hw.reporter.registerLine line hw.path hsource
      have hends := Node.unescaped_evaluate hprogram hw.chain
      rw [Workspace.runEntries]
      cases hevaluate : entry.program.evaluate w.chain with
      | error fault chain =>
          obtain ⟨hfault, hchain⟩ := hends.2 fault chain hevaluate
          exact ⟨hfault,
            { hw with reporter := hregistered, chain := hchain, queue := hrest }⟩
      | ok value chain =>
          obtain ⟨hvalue, hchain⟩ := hends.1 value chain hevaluate
          refine ih ⟨hregistered.registerFile hw.path, hw.path, hchain, hrest, ?_⟩ hrest
          exact List.forall_mem_append.mpr
            ⟨hw.results, List.forall_mem_singleton.mpr hvalue⟩

theorem Unescaped.run
    (hw : w.Unescaped) :
    EndsUnescaped (fun _ => True) w.run := by
  exact hw.runEntries hw.queue

theorem Unescaped.pop?
    {value : Value} {w' : Workspace}
    (hw : w.Unescaped)
    (h : w.pop? = some (value, w')) :
    value.Unescaped ∧ w'.Unescaped := by
  unfold Workspace.pop? at h
  split at h
  · cases h
  · rename_i value rest hresults
    cases h
    obtain ⟨hvalue, hrest⟩ := List.forall_mem_cons.mp (hresults ▸ hw.results)
    exact ⟨hvalue, { hw with results := hrest }⟩

theorem unescaped_shown
    {program : Node}
    (w : Workspace)
    (h : program.Unescaped) :
    Text.Unescaped (w.shown program) := by
  unfold shown
  split
  · exact unescaped_append_iff.mpr ⟨program.unescaped_display 0 h, by decide⟩
  · decide

theorem unescaped_initial
    {reporter : Reporter} {path : String}
    (showTree : Bool)
    (hreporter : reporter.Unescaped)
    (hpath : Text.Unescaped path) :
    (initial reporter path showTree).Unescaped := by
  exact ⟨hreporter, hpath, Chain.unescaped_initial (by decide), List.forall_mem_nil _,
    List.forall_mem_nil _⟩

end Workspace

/-- What is found in place of a file has no escape characters. -/
def Loaded.Unescaped : Loaded → Prop
  | .text contents => Text.Unescaped contents
  | .unopenable => True
  | .damaged description => Text.Unescaped description

theorem Octets.Damage.unescaped_description
    (d : Damage) :
    Text.Unescaped d.description := by
  have hreason : Text.Unescaped d.reason.text := by
    cases d.reason <;> decide
  have hnumber : ∀ n : Nat, Text.Unescaped (toString n) := unescaped_repr
  unfold description
  dsimp only
  simp only [unescaped_append_iff, hreason, and_true]
  refine ⟨⟨by decide, ?_⟩, by decide⟩
  split
  · simp only [unescaped_append_iff, hnumber, unescaped_ofList_iff, not_mem_hexadecimal,
      not_false_eq_true, and_true]
    decide
  · simp only [unescaped_append_iff, hnumber, and_true]
    decide

/-- Escape characters come from the contents of a file only. -/
theorem Loaded.unescaped_ofFile
    {path : String} {octets : Option (List UInt8)}
    (h : ∀ contents, ofFile path octets = .text contents → Text.Unescaped contents) :
    (ofFile path octets).Unescaped := by
  cases hloaded : ofFile path octets with
  | text contents => exact h contents hloaded
  | unopenable => trivial
  | damaged description =>
      unfold ofFile at hloaded
      split at hloaded
      · cases hloaded
        rw [Loaded.Unescaped]
        decide
      · split at hloaded
        · cases hloaded
        · split at hloaded
          · cases hloaded
          · rename_i damage _
            cases hloaded
            exact damage.unescaped_description

namespace Workspace

/-- The workspace is refused in both styles or ready in both, and of what is printed the
style decides only the look. -/
inductive OpensAlike (opening : Style → Opening) : Prop
  | refused
      (reporter : Reporter) (reason : Ending)
      (h : ∀ style, opening style = .refused reporter reason)
      (hreporter : reporter.Unescaped)
      (hreason : reason.Unescaped)
  | ready
      (w : Workspace) (output : Style → String)
      (h : ∀ style, opening style = .ready w (output style))
      (hw : w.Unescaped)
      (houtput : OnlyLook output)

theorem opensAlike_openAt
    {reporter : Reporter} {path : String} {file : Loaded}
    (interactive showTree : Bool)
    (hreporter : reporter.Unescaped)
    (hpath : Text.Unescaped path)
    (hfile : file.Unescaped) :
    OpensAlike fun style => openAt style reporter path interactive showTree file := by
  have hquoted : ∀ {m : Message}, m.all Message.hasPlainWords = true →
      m.slots = [path] → m.Unescaped := by
    intro m hwords hslots
    exact Message.unescaped_of_slots hwords
      (by rw [hslots]; exact List.forall_mem_singleton.mpr hpath)
  unfold openAt
  dsimp only
  have hregistered :
      (if interactive then { reporter.registerFile path with fatal := false }
      else reporter.registerFile path).Unescaped := by
    split
    · exact hreporter.registerFile hpath
    · exact hreporter.registerFile hpath
  generalize (if interactive then { reporter.registerFile path with fatal := false }
      else reporter.registerFile path) = registered at hregistered ⊢
  have hw := unescaped_initial showTree hregistered hpath
  split
  · split
    · exact .ready _ _ (fun _ => rfl) hw (.const (by decide))
    · refine .refused _ _ (fun _ => rfl) hregistered (Ending.unescaped_failed ?_)
      exact Message.unescaped_of_slots rfl (List.forall_mem_nil _)
  · cases file with
    | unopenable =>
        exact .refused _ _ (fun _ => rfl) hregistered
          (Ending.unescaped_failed (hquoted rfl rfl))
    | damaged description =>
        refine .refused _ _ (fun _ => rfl) hregistered fun d hd => ?_
        cases hd
        exact Message.unescaped_of_slots rfl (List.forall_mem_singleton.mpr hfile)
    | text contents =>
        dsimp only
        have hadded := hw.add hfile 1
        cases hadd : (initial registered path showTree).add contents 1 with
        | error fault w =>
            rw [hadd] at hadded
            exact .refused _ _ (fun _ => rfl) hadded.2.reporter
              (Ending.unescaped_ofFault hadded.1)
        | ok program w =>
            rw [hadd] at hadded
            refine .ready w _ (fun _ => rfl) hadded.2
              (.append (.const (w.unescaped_shown hadded.1)) ?_)
            split
            · exact Reporter.onlyLook_report .warning hadded.2.reporter (hquoted rfl rfl)
            · exact .const (by decide)

end Workspace

/-- A file that is run: what is printed, the exit code, the workspace at the end unless
none could be opened, and the error that ends the run, if any. -/
structure FileRun where
  completed : Completed
  workspace : Option Workspace
  failure : Option Failure

namespace FileRun

/-- Runs a file. -/
def start (style : Style) (path : String) (showTree : Bool) (file : Loaded) : FileRun :=
  let completed := Completed.ofFile style path showTree file
  match Workspace.openAt style (.fresh true) path false showTree file with
  | .refused _ reason => ⟨completed, none, reason.failure? style⟩
  | .ready w _ =>
    match w.run with
    | .error fault w =>
        ⟨completed, some w, Ending.failure? style (.failed (.ofFault fault))⟩
    | .ok () w => ⟨completed, some w, none⟩

/-- The same run without escape sequences in its texts. -/
def bare (f : FileRun) : FileRun :=
  { f with
    completed := { f.completed with output := withoutEscapes f.completed.output }
    failure := f.failure.map Failure.bare }

theorem completed_ofReported
    {output : Style → String} {reporter : Reporter} {ending : Ending}
    (houtput : OnlyLook output)
    (hreporter : reporter.Unescaped)
    (hending : ending.Unescaped) :
    Completed.ofReported (output .plain) (reporter.settle .plain ending) =
      ⟨withoutEscapes (Completed.ofReported (output .coloured)
        (reporter.settle .coloured ending)).output,
        (Completed.ofReported (output .coloured)
        (reporter.settle .coloured ending)).exit⟩ := by
  have hlook := houtput.append (Reporter.onlyLook_settle hreporter hending)
  simp only [Completed.ofReported, hlook.withoutEscapes_eq,
    (reporter.settle_eq ending .coloured .plain).1]

/-- Without colour a file runs as it does with colour, apart from the escape sequences. -/
theorem start_plain
    {path : String} {file : Loaded}
    (showTree : Bool)
    (hpath : Text.Unescaped path)
    (hfile : file.Unescaped) :
    start .plain path showTree file = (start .coloured path showTree file).bare := by
  have hfresh : (Reporter.fresh true).Unescaped := List.forall_mem_nil _
  cases Workspace.opensAlike_openAt false showTree hfresh hpath hfile with
  | refused reporter reason h hreporter hreason =>
      have hcompleted :=
        completed_ofReported (.const (show Text.Unescaped "" by decide)) hreporter hreason
      simp only [start, Completed.ofFile, h, bare]
      rw [hcompleted, hreason.failure?_eq]
  | ready w output h hw houtput =>
      have hends := hw.run
      simp only [start, Completed.ofFile, h, bare]
      cases hrun : w.run with
      | error fault w' =>
          rw [hrun] at hends
          have hfault := Ending.unescaped_ofFault hends.1
          simp only [completed_ofReported houtput hends.2.reporter hfault,
            hfault.failure?_eq]
      | ok result w' =>
          rw [hrun] at hends
          have hvalues : Text.Unescaped
              (String.join (w'.results.map (·.text ++ "\n"))) := by
            refine unescaped_join (List.forall_mem_map.mpr fun v hv => ?_)
            exact unescaped_append_iff.mpr ⟨hends.2.results v hv, by decide⟩
          simp only [(houtput.append (.const hvalues)).withoutEscapes_eq, Option.map_none]

end FileRun
end LetLang
