import LetLang.Dialogue.Basic
import LetLang.Text.Basic

/-!
# Invocations

What the arguments of a command line ask for, and the whole run that follows. The options
are `--ast`, `--version` and `--help`, each of which may be shortened as long as it stays
unambiguous, and `-h`. At most one argument names a file. After `--` everything is the name
of a file. `--version` and `--help` count from where they stand, before anything to their
right is looked at.
-/

namespace LetLang

/-- What a command line asks for. -/
inductive Request
  /-- Runs a file, or a dialogue if there is none. -/
  | run (file : Option String) (showTree : Bool)
  | version
  | help
  /-- The arguments make no sense. -/
  | misuse
deriving DecidableEq, Repr

/-- The printed text and the exit code of a run. -/
structure Completed where
  output : String
  exit : Int
deriving DecidableEq, Repr

namespace Request

/-- What a single argument is. -/
inductive Argument
  | file (name : String)
  | showTree
  | version
  | help
  /-- An option that does not exist. -/
  | unknown
  /-- An option with a value that it does not take. -/
  | malformed
  /-- A shortened option that could be several ones. -/
  | ambiguous
deriving DecidableEq, Repr

/-- The long options and their meanings. -/
def longOptions : List (List Char × Argument) :=
  [("--help".toList, .help), ("--ast".toList, .showTree), ("--version".toList, .version)]

/-- Removes a newline at the end, but only one. -/
def withoutNewline (cs : List Char) : List Char :=
  if cs.getLast? = some '\n' then cs.dropLast else cs

/-- A numeral without sign: digits of any script, or a point with digits behind it and
maybe before it. -/
def isNumeral (cs : List Char) : Bool :=
  let whole := cs.takeWhile Text.isDecimalDigit
  match cs.drop whole.length with
  | [] => !whole.isEmpty
  | '.' :: fraction => !fraction.isEmpty && fraction.all Text.isDecimalDigit
  | _ => false

/-- A negative number, which is no option. A newline may end it. -/
def isNegativeNumber : List Char → Bool
  | '-' :: cs => isNumeral (withoutNewline cs)
  | _ => false

/-- An argument that starts like an option and is none that exists. -/
def unmatched (cs : List Char) : Argument :=
  if isNegativeNumber cs || cs.contains ' ' then .file (String.ofList cs) else .unknown

/-- A long option, given as all characters of the argument. -/
def classifyLong (cs : List Char) : Argument :=
  let name := cs.takeWhile (· ≠ '=')
  let hasValue := name.length < cs.length
  match longOptions.filter fun (option : List Char × Argument) =>
    name.isPrefixOf option.1 with
  | [] => unmatched cs
  | [option] => if hasValue then .malformed else option.2
  | _ => .ambiguous

/-- The short option `-h`, given what follows it. It may be repeated, in one go or as a
value, and takes nothing else. -/
def classifyShort : List Char → Argument
  | ['='] => .malformed
  | '=' :: value => if value.all (· = 'h') then .help else .malformed
  | more => if more.all (· = 'h') then .help else .malformed

/-- An argument before any `--`. -/
def classify (argument : String) : Argument :=
  match argument.toList with
  | '-' :: '-' :: cs => classifyLong ('-' :: '-' :: cs)
  | '-' :: 'h' :: more => classifyShort more
  | '-' :: c :: cs => unmatched ('-' :: c :: cs)
  | _ => .file argument

/-- What has been read of a command line. -/
structure Reading where
  file : Option String
  showTree : Bool
  /-- There was an argument too many. -/
  surplus : Bool
  /-- The argument read last named the file. -/
  fileLast : Bool

namespace Reading

/-- Nothing has been read. -/
def start : Reading := ⟨none, false, false, false⟩

/-- Takes the name of a file. -/
def takeFile (r : Reading) (name : String) : Reading :=
  match r.file with
  | none => { r with file := some name, fileLast := true }
  | some _ => { r with surplus := true, fileLast := false }

/-- Takes the arguments after `--`. -/
def takeNames (r : Reading) (names : List String) : Reading :=
  match r.file, names with
  | none, [] => r
  | none, [name] => r.takeFile name
  | some _, [] => if r.fileLast then r else { r with surplus := true }
  | _, _ => { r with surplus := true }

/-- What the command line asks for once it has been read. -/
def conclude (r : Reading) : Request :=
  if r.surplus then .misuse else .run r.file r.showTree

/-- Takes the arguments in order. -/
def takeAll (r : Reading) : List String → Request
  | [] => r.conclude
  | "--" :: names => (r.takeNames names).conclude
  | argument :: rest =>
    match classify argument with
    | .version => .version
    | .help => .help
    | .malformed | .ambiguous => .misuse
    | .file name => (r.takeFile name).takeAll rest
    | .showTree => takeAll { r with showTree := true, fileLast := false } rest
    | .unknown => takeAll { r with surplus := true, fileLast := false } rest

end Reading

/-- What the arguments ask for. An ambiguous option spoils them wherever it stands. -/
def ofArguments (arguments : List String) : Request :=
  let options := arguments.takeWhile (· ≠ "--")
  if options.any (classify · = .ambiguous) then .misuse
    else Reading.start.takeAll arguments

end Request

namespace Completed

/-- The end of a run by a report. -/
def ofReported (output : String) (r : Reported) : Completed :=
  ⟨output ++ r.output, (r.exit.bind id).getD 0⟩

/-- Runs a file and prints its values. -/
def ofFile (style : Style) (path : String) (showTree : Bool) (file : Loaded) : Completed :=
  match Workspace.openAt style (.fresh true) path false showTree file with
  | .refused reporter reason => ofReported "" (reporter.settle style reason)
  | .ready w output =>
    match w.run with
    | .error fault w =>
        ofReported output (w.reporter.settle style (.failed (.ofFault fault)))
    | .ok () w => ⟨output ++ String.join (w.results.map (·.text ++ "\n")), 0⟩

/-- The lines of an input. A newline ends a line and starts none. -/
def inputLines (input : List Char) : List String :=
  let lines := Text.lines input
  let whole := if lines.getLast? = some [] then lines.dropLast else lines
  whole.map String.ofList

/-- Runs a dialogue over a whole input. -/
def ofInput (style : Style) (showTree : Bool) (input : String) : Completed :=
  let lines := inputLines (Octets.unifyNewlines input.toList)
  let (output, code) := (Dialogue.fresh showTree).converse style lines
  ⟨Dialogue.introduction ++ "\n" ++ output, code⟩

/-- The line that tells the version. -/
def versionLine : String := "funlang " ++ version ++ "\n"

/-- The text that explains the arguments. -/
def usage : String :=
  "usage: funlang [-h] [--ast] [--version] [file]\n\n" ++
  "positional arguments:\n" ++
  "  file        file to interpret and run (if empty, goes to command-line mode)\n\n" ++
  "options:\n" ++
  "  -h, --help  show this help message and exit\n" ++
  "  --ast       print the syntax tree of each program before running it\n" ++
  "  --version   show program's version number and exit\n"

/-- Runs what is asked for, given the files by name and the whole input. -/
def ofRequest (style : Style) (load : String → Loaded)
    (input : String) : Request → Completed
  | .misuse => ⟨"", 2⟩
  | .version => ⟨versionLine, 0⟩
  | .help => ⟨usage, 0⟩
  | .run (some path) showTree => ofFile style path showTree (load path)
  | .run none showTree => ofInput style showTree input

end Completed
end LetLang
