import LetLang.Fault
import LetLang.Text.Basic

/-!
# Diagnostics

A diagnostic is what is reported to the user: a message, the place it is about, and how
much of the source is marked there. Faults of programs give diagnostics, and so do things
that go wrong around a program. Line zero means that no place is known.
-/

namespace LetLang

/-- Something to report. -/
structure Diagnostic where
  kind : Kind
  message : Message
  /-- The snippet of source that the message quotes first. -/
  snippet : String
  line : Int
  column : Int
  /-- How many characters are marked in the source line. -/
  length : Int
  /-- The source line may be shown below the message. -/
  showsSource : Bool
deriving DecidableEq, Repr

namespace Diagnostic

/-- The fault lies in the interpreter and not in the program. -/
def isInternal (d : Diagnostic) : Bool :=
  d.kind == .internal

/-- The diagnostic of a fault. -/
def ofFault (f : Fault) : Diagnostic where
  kind := f.cause.kind
  message := f.cause.message
  snippet := f.cause.snippet
  line := f.pos.line
  column := f.pos.column
  length := f.cause.length
  showsSource := f.cause.kind != .internal

/-- The length that stands for the length of the snippet. -/
def defaultLength : Int := -1

/-- A diagnostic with the message of a template, about the first of the snippets. Unless it
is said otherwise, every diagnostic but an internal one shows its source line. -/
def ofTemplate (kind : Kind) (template : String) (snippets : List String)
    (line column length : Int)
    (showsSource : Option Bool) : Diagnostic :=
  let snippet := snippets.headD ""
  { kind := kind
    message := Message.ofTemplate template snippets
    snippet := snippet
    line := line
    column := column
    length := if length = defaultLength then (max snippet.length 1 : Nat) else length
    showsSource := showsSource.getD (kind != .internal) }

/-- A diagnostic about no place. -/
def unplaced (kind : Kind) (message : Message) (snippet : String)
    (showsSource : Bool) : Diagnostic :=
  { kind, message, snippet, line := 0, column := 0,
    length := (max snippet.length 1 : Nat), showsSource }

/-- A file cannot be opened. -/
def unopenable (path : String) : Diagnostic :=
  unplaced .language [.words "'", .snippet path, .words "' could not be opened"] path false

/-- A file has the name that stands for interactive input. -/
def reservedPath : Diagnostic :=
  unplaced .language [.words "'<in>' is a reserved filename"] "" true

/-- A file holds a program without statements. -/
def noStatements (path : String) : Diagnostic :=
  unplaced .language [.words "'", .snippet path,
    .words "' contains no statements"] path false

/-- A command is followed by something it does not take. -/
def unrecognized (argument : String) : Diagnostic :=
  unplaced .language [.words "unrecognized token: '", .snippet argument,
    .words "'"] argument false

/-- The user breaks the program off. -/
def interrupted : Diagnostic :=
  unplaced .language [.words "keyboard interrupt"] "" true

/-- An expression is nested more deeply than the machine can follow. -/
def tooDeep : Diagnostic :=
  unplaced .language
    [.words "expression is nested too deeply, maximum recursion depth exceeded"] "" true

/-- The interpreter fails for a reason of its own. -/
def crash (description : String) : Diagnostic :=
  unplaced .internal [.words "unknown error: '", .snippet description,
    .words "'"] description false

/-- The line and column within a source, or zeros if there is no source or no place. -/
def place (d : Diagnostic) (source : Option String) : Int × Int :=
  if d.line ≠ 0 ∧ source.isSome then (d.line, d.column) else (0, 0)

/-- The line with that number, the last line for every greater number. Zero and the numbers
below it count back from the last line. -/
def pickLine (lines : List (List Char)) (number : Int) : List Char :=
  let index := min number lines.length - 1
  let index := if index < 0 then index + lines.length else index
  if index < 0 then [] else lines.getD index.toNat []

/-- The source line of a diagnostic with the marked part set apart, and below it a caret
with a tail as long as the marked part. -/
def excerpt (d : Diagnostic) (style : Style) (accent : Accent)
    (source : String) : String :=
  let (number, column) := d.place (some source)
  let line := pickLine (Text.lines source.toList) number
  let start := (column - 1).toNat
  let width := (max d.length 1).toNat
  let before := String.ofList (line.take start)
  let marked := String.ofList ((line.drop start).take width)
  let after := String.ofList (line.drop (start + width))
  let gap := String.ofList (List.replicate start ' ')
  let caret := String.ofList ('^' :: List.replicate (width - 1) '~')
  "  " ++ before ++ style.paint accent marked ++ after ++ "\n" ++ "  " ++
    gap ++ style.paint accent caret

end Diagnostic
end LetLang
