import LetLang.Workspace

/-!
# Dialogues

A dialogue reads lines and answers each of them. A line is held back until it is complete,
while a string literal or a parenthesis is open, and joined to the next one; a parenthesis
inside a string literal does not count. The words `help`, `exit` and `EOF`, alone on a
line, are commands; everything else is a piece of program, of which the value is printed or
the fault reported.
-/

namespace LetLang
namespace Continuation

/-- The characters outside string literals, without the quotes. The flag tells whether the
text starts inside one. -/
def outside : Bool → List Char → List Char
  | _, [] => []
  | inside, c :: cs =>
    if c = '"' then outside (!inside) cs
    else if inside then outside inside cs
    else c :: outside inside cs

/-- A string literal or a parenthesis is open at the end of the text. -/
def isOpen (cs : List Char) : Bool :=
  let code := outside false cs
  decide (cs.count '"' % 2 = 1) || decide (code.count ')' < code.count '(')

/-- The text without blanks at its end, and whether it has to be continued. -/
def assess (line : String) : String × Bool :=
  let text := Text.trimEnd line
  (text, isOpen text.toList)

end Continuation

/-- Lines that have been held back, and the number of the first of them. -/
structure Pending where
  text : String
  firstLine : Nat
deriving DecidableEq, Repr

/-- The state between two lines. -/
structure Dialogue where
  workspace : Workspace
  pending : Option Pending
  /-- How many lines have been taken as program text. -/
  lineCount : Nat
  /-- What is printed before the next line. -/
  prompt : String

/-- What a line means for the dialogue itself. -/
inductive Answer
  /-- Program text has been handled. -/
  | handled
  /-- The line is blank. -/
  | blank
  /-- A command has been refused. -/
  | refused
  /-- The dialogue ends. -/
  | stop
  /-- The whole run ends. -/
  | exit (code : Option Int)
deriving DecidableEq, Repr

/-- The printed text, the answer and the state after a line. -/
structure Reply where
  output : String
  answer : Answer
  dialogue : Dialogue

namespace Dialogue

/-- The prompt for a new text. -/
def firstPrompt : String := "> "

/-- The prompt for a line that continues the one before it. -/
def secondaryPrompt : String := ". "

/-- A dialogue at its beginning. -/
def start (w : Workspace) : Dialogue := ⟨w, none, 0, firstPrompt⟩

/-- A dialogue about interactive input, which goes on after an error. -/
def fresh (showTree : Bool) : Dialogue :=
  start (.initial ((Reporter.fresh false).registerFile Workspace.inputPath)
    Workspace.inputPath showTree)

/-- What is printed before the first prompt. -/
def introduction : String :=
  "Welcome to FunLang REPL :: Python backend\nType 'help' for more information or 'exit' to leave."

/-- What the command `help` prints. -/
def helpText : String :=
  "Welcome to the FunLang interpreter!\n\n" ++
  "Declare variables with 'let a = 1;' or constants with 'const b = \"text\";', reassign\n" ++
  "them with 'a = a + 1', and combine values with + - * / % and the comparisons\n" ++
  "== != > < >= <= && ||. The value of the last statement is printed after each line.\n\n" ++
  "Built-in constants: pi, e, version, true, false, null.\n" ++
  "'help' and 'exit' typed on their own are shell commands."

/-- The text that has been held back. -/
def pendingText (d : Dialogue) : String :=
  match d.pending with
  | some p => p.text
  | none => ""

/-- Reports how a guarded piece of work ended, after its output. -/
def settle (d : Dialogue) (style : Style) (output : String) (w : Workspace)
    (ending : Ending) (answer : Answer) :
    Reply :=
  let reported := w.reporter.settle style ending
  { output := output ++ reported.output
    answer :=
      match reported.exit with
      | some code => .exit code
      | none => answer
    dialogue := { d with workspace := { w with reporter := reported.reporter } } }

/-- Reads and evaluates a complete text that starts on that line, and prints the
oldest value. -/
def execute (d : Dialogue) (style : Style) (text : String) (firstLine : Nat) : Reply :=
  match d.workspace.add text firstLine with
  | .error fault w => d.settle style "" w (.failed (.ofFault fault)) .handled
  | .ok program w =>
    let shown := w.shown program
    match w.run with
    | .error fault w => d.settle style shown w (.failed (.ofFault fault)) .handled
    | .ok () w =>
      match w.pop? with
      | none => d.settle style shown w .finished .handled
      | some (value, w) =>
          d.settle style (shown ++ value.text ++ "\n") w .finished .handled

/-- Counts a line and holds back the text that it leaves open. -/
def holdBack (d : Dialogue) (text : String) (firstLine : Nat) : Dialogue :=
  { d with
    pending := some ⟨text, firstLine⟩
    lineCount := d.lineCount + 1
    prompt := secondaryPrompt }

/-- Counts a line after which nothing is held back. -/
def release (d : Dialogue) : Dialogue :=
  { d with pending := none, lineCount := d.lineCount + 1, prompt := firstPrompt }

/-- Takes a line of program text. -/
def submit (d : Dialogue) (style : Style) (line : String) : Reply :=
  let (firstLine, joined) :=
    match d.pending with
    | none => (d.lineCount + 1, line)
    | some p => (p.firstLine, p.text ++ "\n" ++ line)
  let (text, more) := Continuation.assess joined
  if more then ⟨"", .handled, d.holdBack text firstLine⟩
  else if text = "" then ⟨"", .handled, d.release⟩
  else d.release.execute style text firstLine

/-- The command `exit`, which takes no argument. -/
def leave (d : Dialogue) (style : Style) (argument : String) : Reply :=
  if argument = "" then
    ⟨"Goodbye!\n", .stop, d⟩
  else
    d.settle style "" d.workspace (.failed (.unrecognized argument)) .refused

/-- The characters of command names. -/
def isCommandChar (c : Char) : Bool :=
  c.isAlphanum || c == '_'

/-- Carries out a line that is not blank and starts with a command name or with
anything else. -/
def dispatch (d : Dialogue) (style : Style) (line : String) : Reply :=
  let name := line.toList.takeWhile isCommandChar
  let argument := Text.trim (String.ofList (line.toList.drop name.length))
  if name = "help".toList ∧ argument = "" then ⟨helpText ++ "\n", .handled, d⟩
  else if name = "EOF".toList ∧ argument = "" then
    let reply := d.leave style ""
    { reply with output := "\n" ++ reply.output }
  else if name = "exit".toList then d.leave style argument
  else d.submit style line

/-- Takes a line. A question mark at its start is short for `help`. -/
def respond (d : Dialogue) (style : Style) (line : String) : Reply :=
  let text := Text.trim line
  match text.toList with
  | [] => ⟨"", .blank, d⟩
  | '?' :: rest => d.dispatch style ("help " ++ String.ofList rest)
  | '!' :: _ => d.submit style text
  | _ => d.dispatch style text

/-- The line that the end of the input stands for. -/
def endOfInput : String := "EOF"

/-- Answers lines, each after a prompt, until one of them ends the dialogue, and then the
end of the input. Gives the printed text and the exit code. -/
def converse (style : Style) (d : Dialogue) : List String → String × Int
  | [] =>
    let reply := d.respond style endOfInput
    (d.prompt ++ reply.output, 0)
  | line :: rest =>
    let reply := d.respond style line
    let output := d.prompt ++ reply.output
    match reply.answer with
    | .stop => (output, 0)
    | .exit code => (output, code.getD 0)
    | .handled | .blank | .refused =>
      let (more, code) := converse style reply.dialogue rest
      (output ++ more, code)

end Dialogue
end LetLang
