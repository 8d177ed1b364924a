import LetLang.Invocation
import LetLang.Proofs.Dialogue.Repl

/-!
# Running a file

A file is read into a queue, and the queue is run; the reporter keeps a registry meanwhile,
and its report ends the run. What comes of all this is said by `Completed.ofRequest_file`:
the tree, if trees are shown, and a warning, if there are no statements, then the value of
the text or the report of its one fault. The value and the fault are those of
`evaluateSource` in the initial scopes.
-/

namespace LetLang

/-- What is printed about a file whose text is a program without statements. -/
def Completed.emptyNotice (style : Style) (path contents : String) : String :=
  match parse contents with
  | .ok program =>
    if program.statements = [] then
      style.paint .bold (path ++ ": ") ++ style.paint .magenta "warning: " ++
        "'" ++ style.paint .bold path ++ "' contains no statements\n"
    else ""
  | .error _ => ""

/-- An empty text is a program. -/
theorem parse_empty :
    parse "" = .ok (.program .unknown []) := by
  have hread : tokenize "" = .ok ⟨[], .start⟩ := by
    rw [tokenize, String.toList_empty, TokenStream.read]
  rw [parse_of_tokenize hread]
  rfl

theorem ne_empty_of_evaluateSource_error
    {contents : String} {chain chain' : Chain} {fault : Fault}
    (h : evaluateSource contents chain = .error fault chain') :
    contents ≠ "" := by
  rintro rfl
  rw [evaluateSource, parse_empty] at h
  cases h

namespace Reporter

/-- The warning about a file that has been registered. -/
theorem warn_noStatements
    (fatal : Bool) (style : Style) (path : String) :
    warn ⟨fatal, [(path, none)]⟩ style (.noStatements path) =
      style.paint .bold (path ++ ": ") ++ style.paint .magenta "warning: " ++
        "'" ++ style.paint .bold path ++ "' contains no statements\n" := by
  have hmessage : Message.render style (Diagnostic.noStatements path).message =
      "'" ++ style.paint .bold path ++ "' contains no statements" := by
    simp [Diagnostic.noStatements, Diagnostic.unplaced, Message.render,
      Piece.render, String.join]
  rw [warn, report_of_listing_none style .warning rfl rfl, hmessage]
  simp only [header, Severity.accent, Severity.label, String.append_assoc]
  rfl

/-- A fatal reporter reports the fault of a file once, and ends the run with code one. -/
theorem settle_fatal
    {text : String} {fault : Fault} (style : Style) (path : String)
    (htext : text ≠ "")
    (hplace : Text.HasPlace text.toList fault.pos)
    (hkind : fault.cause.kind ≠ .internal) :
    settle ⟨true, [(path, some ⟨text, 1⟩)]⟩ style (.failed (.ofFault fault)) =
      ⟨fault.report style path text 1, some (some 1),
        ⟨true, [(path, some ⟨text, 1⟩)]⟩⟩ := by
  have hreport : report ⟨true, [(path, some ⟨text, 1⟩)]⟩ style .error (.ofFault fault) =
      fault.report style path text 1 :=
    report_of_fault true style path 1 htext hplace hkind
  simp only [settle, throw, Bool.true_or, if_true, hreport]

end Reporter

namespace Workspace

variable {path contents : String} {program : Node}

/-- A file that cannot be read stays registered, so that its fault is reported. -/
theorem openAt_of_parse_error
    {fault : Fault} (style : Style) (showTree : Bool)
    (hpath : path ≠ inputPath)
    (hparse : parse contents = .error fault) :
    openAt style (.fresh true) path false showTree (.text contents) =
      .refused ⟨true, [(path, some ⟨contents, 1⟩)]⟩ (.failed (.ofFault fault)) := by
  simp [openAt, hpath, add, hparse, initial, Reporter.registerFile, Reporter.registerLine,
    Reporter.fresh, Ledger.put]

/-- The program of a file waits in the queue, and the warning has been printed. -/
theorem openAt_of_parse
    (style : Style) (showTree : Bool)
    (hpath : path ≠ inputPath)
    (hparse : parse contents = .ok program) :
    openAt style (.fresh true) path false showTree (.text contents) =
      .ready ⟨⟨true, [(path, none)]⟩, path, showTree, Chain.initial version,
        [(1, ⟨contents, program⟩)], []⟩
        (Repl.shown showTree contents ++ Completed.emptyNotice style path contents) := by
  have hnotice : (if program.statements.isEmpty then
      Reporter.warn ⟨true, [(path, none)]⟩ style (.noStatements path) else "") =
      Completed.emptyNotice style path contents := by
    simp only [Completed.emptyNotice, hparse, List.isEmpty_iff, Reporter.warn_noStatements]
  simp only [openAt, hpath, if_false, Bool.false_eq_true, add, hparse, initial,
    Reporter.registerFile, Reporter.registerLine, Reporter.fresh, Ledger.put, if_true,
    shown, Repl.shown, hnotice]

end Workspace

namespace Completed

/--
The run of a file prints its tree, if trees are shown, and a warning, if it has no
statements; then its value, or the one report of its fault.
-/
theorem ofRequest_file
    {load : String → Loaded} {path contents : String} (style : Style)
    (input : String) (showTree : Bool)
    (hpath : path ≠ Workspace.inputPath)
    (hload : load path = .text contents) :
    ofRequest style load input (.run (some path) showTree) =
      match evaluateSource contents (Chain.initial version) with
      | .ok value _ =>
        ⟨Repl.shown showTree contents ++ emptyNotice style path contents ++
          (value.text ++ "\n"), 0⟩
      | .error fault _ =>
        ⟨Repl.shown showTree contents ++ emptyNotice style path contents ++
          fault.report style path contents 1, 1⟩ := by
  rw [ofRequest, hload, ofFile]
  cases hparse : parse contents with
  | error fault =>
      have hrun : evaluateSource contents (Chain.initial version) =
          .error fault (Chain.initial version) := by
        rw [evaluateSource, hparse]
      obtain ⟨hplace, hkind⟩ := place_of_evaluateSource_error hrun
      have htext := ne_empty_of_evaluateSource_error hrun
      rw [Workspace.openAt_of_parse_error style showTree hpath hparse, hrun]
      simp only [Reporter.settle_fatal style path htext hplace hkind, Repl.shown,
        emptyNotice, hparse]
      rfl
  | ok program =>
      have hsource : evaluateSource contents (Chain.initial version) =
          program.evaluate (Chain.initial version) := by
        rw [evaluateSource, hparse]
      rw [Workspace.openAt_of_parse style showTree hpath hparse, hsource]
      cases hrun : program.evaluate (Chain.initial version) with
      | ok value chain =>
          simp only [Workspace.run, Workspace.runEntries, hrun]
          rfl
      | error fault chain =>
          obtain ⟨hplace, hkind⟩ := place_of_evaluateSource_error (hsource.trans hrun)
          have htext := ne_empty_of_evaluateSource_error (hsource.trans hrun)
          simp only [Workspace.run, Workspace.runEntries, hrun, Reporter.registerLine,
            Ledger.put, if_true, Reporter.settle_fatal style path htext hplace hkind]
          rfl

/-- The second line of a file uses a name that is not declared. -/
theorem ofRequest_file_unknown :
    ("sum.fl" ≠ Workspace.inputPath ∧
      evaluateSource "let x;\nx + y" (Chain.initial version) =
        .error ⟨.notDeclared "y", ⟨2, 5⟩⟩
          ⟨Ledger.put "x" ⟨.null, false⟩ (Scope.builtins version), []⟩) ∧
      ofRequest .plain (fun _ => .text "let x;\nx + y") "" (.run (some "sum.fl") false) =
        ⟨"sum.fl:2:5: error: symbol 'y' was not declared\n  x + y\n      ^\n", 1⟩ := by
  have hpath : "sum.fl" ≠ Workspace.inputPath := by
    decide
  have htokens : tokenize "let x;\nx + y" =
      .ok ⟨[⟨.declare false, ⟨1, 1⟩⟩, ⟨.identifier "x", ⟨1, 5⟩⟩, ⟨.semicolon, ⟨1, 6⟩⟩,
        ⟨.identifier "x", ⟨2, 1⟩⟩, ⟨.operator (.binary (.arith .add)), ⟨2, 3⟩⟩,
        ⟨.identifier "y", ⟨2, 5⟩⟩], ⟨2, 6⟩⟩ := by
    decide +kernel
  have hparse : parse "let x;\nx + y" = .ok (.program .unknown
      [.declaration ⟨1, 1⟩ "x" ⟨1, 5⟩ false none,
        .operation .arithmetic ⟨2, 1⟩ "+" ⟨2, 3⟩ (.identifier ⟨2, 1⟩ "x")
          (.identifier ⟨2, 5⟩ "y")]) :=
    (parse_of_tokenize htokens).trans rfl
  have hrun : evaluateSource "let x;\nx + y" (Chain.initial version) =
      .error ⟨.notDeclared "y", ⟨2, 5⟩⟩
        ⟨Ledger.put "x" ⟨.null, false⟩ (Scope.builtins version), []⟩ := by
    rw [evaluateSource, hparse]
    rfl
  refine ⟨⟨hpath, hrun⟩, ?_⟩
  have hload : (fun _ : String => Loaded.text "let x;\nx + y") "sum.fl" =
      .text "let x;\nx + y" := by
    rfl
  refine (ofRequest_file .plain "" false hpath hload).trans ?_
  rw [hrun]
  simp only [Repl.shown, emptyNotice, hparse]
  rfl

end Completed
end LetLang
