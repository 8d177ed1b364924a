import LetLang.Evaluation
import LetLang.Report.Reporter
import LetLang.Text.Octets
import LetLang.Tree.Display

/-!
# Workspaces

A workspace runs programs against one chain of scopes that lasts. Programs are read and
queued, each under the number of the line it starts on, then evaluated in the order of the
queue. Their values wait to be taken, the oldest first. Interactive input goes by the file
name `<in>`, which no file may have.
-/

namespace LetLang

/-- The version of the language. -/
def version : String := "0.0.1"

/-- A program and the text it was read from. -/
structure Entry where
  source : String
  program : Node

/-- A running session. -/
structure Workspace where
  reporter : Reporter
  path : String
  /-- Every program is displayed when it has been read. -/
  showTree : Bool
  chain : Chain
  /-- The programs to evaluate, under the numbers of their first lines. -/
  queue : Ledger Int Entry
  /-- The values that have not been taken, oldest first. -/
  results : List Value

/-- What is found where a file is looked for. -/
inductive Loaded
  | text (contents : String)
  | unopenable
  | damaged (description : String)

/-- What comes of opening a workspace. -/
inductive Opening
  | ready (workspace : Workspace) (output : String)
  | refused (reporter : Reporter) (reason : Ending)

namespace Loaded

/-- The file of that name holds these octets, or cannot be opened. No file name holds the
character zero. -/
def ofFile (path : String) (octets : Option (List UInt8)) : Loaded :=
  if '\x00' ∈ path.toList then
    .damaged "ValueError: embedded null byte"
  else
    match octets with
    | none => .unopenable
    | some bytes =>
      match Octets.decode bytes with
      | .ok contents => .text contents
      | .error damage => .damaged damage.description

end Loaded

namespace Workspace

/-- The file name of interactive input. -/
def inputPath : String := "<in>"

/-- A workspace in which nothing has been read. -/
def initial (reporter : Reporter) (path : String) (showTree : Bool) : Workspace :=
  ⟨reporter, path, showTree, Chain.initial version, [], []⟩

/-- What is printed when a program has been read. -/
def shown (w : Workspace) (program : Node) : String :=
  if w.showTree then program.display 0 ++ "\n" else ""

/-- Reads a text that starts on that line and queues it. A text that cannot be read stays
registered with the reporter, which is to report it, and changes nothing else. -/
def add (source : String) (line : Int) : EStateM Fault Workspace Node := fun w =>
  match parse source with
  | .error fault =>
      .error fault { w with reporter := w.reporter.registerLine w.path source line }
  | .ok program =>
    .ok program { w with
      reporter := (w.reporter.registerLine w.path source line).registerFile w.path
      queue := Ledger.put line ⟨source, program⟩ w.queue }

/-- Evaluates the programs of a queue in order and keeps their values. A program leaves the
queue also if it fails, and its failure ends the run. -/
def runEntries : Ledger Int Entry → EStateM Fault Workspace Unit
  | [], w => .ok () { w with queue := [] }
  | (line, entry) :: rest, w =>
    let reporter := w.reporter.registerLine w.path entry.source line
    match entry.program.evaluate w.chain with
    | .error fault chain => .error fault { w with reporter, chain, queue := rest }
    | .ok value chain =>
      runEntries rest { w with
        reporter := reporter.registerFile w.path, chain, queue := rest, results :=
          w.results ++ [value] }

/-- Evaluates all queued programs. -/
def run : EStateM Fault Workspace Unit := fun w =>
  runEntries w.queue w

/-- Takes the oldest value. -/
def pop? (w : Workspace) : Option (Value × Workspace) :=
  match w.results with
  | [] => none
  | value :: rest => some (value, { w with results := rest })

/-- Opens a workspace for a file, whose program is read at once, or for interactive input.
Interactive work goes on after an error. -/
def openAt (style : Style) (reporter : Reporter) (path : String)
    (interactive showTree : Bool) (file : Loaded) :
    Opening :=
  let registered := reporter.registerFile path
  let reporter := if interactive then { registered with fatal := false } else registered
  let w := initial reporter path showTree
  if path = inputPath then
    if interactive then .ready w "" else .refused reporter (.failed .reservedPath)
  else
    match file with
    | .unopenable => .refused reporter (.failed (.unopenable path))
    | .damaged description => .refused reporter (.crashed description)
    | .text contents =>
      match w.add contents 1 with
      | .error fault w => .refused w.reporter (.failed (.ofFault fault))
      | .ok program w =>
        let warning := if program.statements.isEmpty then
          w.reporter.warn style (.noStatements path) else ""
        .ready w (w.shown program ++ warning)

end Workspace
end LetLang
