import LetLang.Ledger
import LetLang.Report.Diagnostic

/-!
# The reporter

The reporter keeps a registry of the files in use, each with the piece of source that is
being worked on, if any. A report is headed by the file registered first, and by the place
in it if that file has a piece of source. Reporting an error ends the run if the reporter
is fatal or the error internal, and otherwise clears the registry.
-/

namespace LetLang

/-- A piece of source and the line of its file on which it starts. -/
structure Listing where
  source : String
  firstLine : Int
deriving DecidableEq, Repr

/-- How serious a report is. -/
inductive Severity
  | error
  | warning
deriving DecidableEq, Repr

namespace Severity

/-- The colour of reports. -/
def accent : Severity → Accent
  | error => .red
  | warning => .magenta

/-- The word before the message. -/
def label : Severity → String
  | error => "error: "
  | warning => "warning: "

end Severity

/-- The files in use, in order of registration, and whether an error ends the run. -/
structure Reporter where
  fatal : Bool
  registry : Ledger String (Option Listing)
deriving DecidableEq, Repr

/-- How a guarded piece of work ends. -/
inductive Ending
  /-- It is done. -/
  | finished
  /-- It fails with something to report. -/
  | failed (d : Diagnostic)
  /-- It ends the run, with an exit code if one is given. -/
  | exited (code : Option Int)
  /-- The user breaks it off. -/
  | interrupted
  /-- It is nested too deeply. -/
  | tooDeep
  /-- It fails for an unforeseen reason. -/
  | crashed (description : String)

/-- What follows from a report: the printed text, the exit code if the run ends, and the
reporter afterwards. -/
structure Reported where
  output : String
  exit : Option (Option Int)
  reporter : Reporter

namespace Reporter

/-- A reporter with nothing registered. -/
def fresh (fatal : Bool) : Reporter := ⟨fatal, []⟩

/-- Registers a file without a piece of source, or takes its piece of source away. -/
def registerFile (r : Reporter) (path : String) : Reporter :=
  { r with registry := Ledger.put path none r.registry }

/-- Registers the piece of source that is worked on. -/
def registerLine (r : Reporter) (path source : String) (firstLine : Int) : Reporter :=
  { r with registry := Ledger.put path (some ⟨source, firstLine⟩) r.registry }

/-- The piece of source that reports refer to. -/
def listing? (r : Reporter) : Option Listing :=
  (r.registry.head?).bind Prod.snd

/-- The text before a report: the file, and the place in it where one is known. -/
def header (r : Reporter) (style : Style) (d : Diagnostic) : String :=
  match r.registry with
  | [] => ""
  | (path, none) :: _ => style.paint .bold (path ++ ": ")
  | (path, some listing) :: _ =>
    let (line, column) := d.place (some listing.source)
    if line = 0 then
      style.paint .bold (path ++ ": ")
    else
      style.paint .bold
        (path ++ ":" ++ toString (listing.firstLine + line - 1) ++
          ":" ++ toString column ++ ": ")

/-- The piece of source that is shown below a report. -/
def shownSource? (r : Reporter) (d : Diagnostic) : Option String :=
  match r.listing? with
  | none => none
  | some listing =>
    if listing.source ≠ "" ∧ d.isInternal = false ∧ d.showsSource = true ∧
      d.line ≠ 0 then some listing.source
    else none

/-- The text of a report. -/
def report (r : Reporter) (style : Style) (severity : Severity)
    (d : Diagnostic) : String :=
  let mark :=
    if severity = .error ∧ d.isInternal = true then
      style.paint severity.accent "[internal] " else ""
  let below :=
    match r.shownSource? d with
    | some source => d.excerpt style severity.accent source ++ "\n"
    | none => ""
  r.header style d ++ mark ++ style.paint severity.accent severity.label ++
    d.message.render style ++ "\n" ++ below

/-- The text of a warning. Warnings change nothing. -/
def warn (r : Reporter) (style : Style) (d : Diagnostic) : String :=
  r.report style .warning d

/-- Reports an error. -/
def throw (r : Reporter) (style : Style) (d : Diagnostic) : Reported :=
  let output := r.report style .error d
  if r.fatal || d.isInternal then
    ⟨output, some (some 1), r⟩
  else
    ⟨output, none, { r with registry := [] }⟩

/-- Reports the end of a guarded piece of work, unless it is done or ends the run. -/
def settle (r : Reporter) (style : Style) : Ending → Reported
  | .finished => ⟨"", none, r⟩
  | .exited code => ⟨"", some code, r⟩
  | .failed d => r.throw style d
  | .interrupted => r.throw style .interrupted
  | .tooDeep => r.throw style .tooDeep
  | .crashed description => r.throw style (.crash description)

end Reporter
end LetLang
