import LetLang.Invocation

/-!
# The command line

Reads files and standard input, and prints. Everything that is printed is computed by
`LetLang.Completed` and `LetLang.Dialogue`.
-/

namespace LetLang

/-- Looks for a file. -/
def loadFile (path : String) : IO Loaded := do
  let octets ← try
    let bytes ← IO.FS.readBinFile path
    pure (some bytes.data.toList)
  catch _ =>
    pure none
  return Loaded.ofFile path octets

/-- Prompts, reads a line and answers it, until the dialogue ends. -/
partial def converseOnTerminal (style : Style) (d : Dialogue) : IO UInt32 := do
  let stdin ← IO.getStdin
  let stdout ← IO.getStdout
  stdout.putStr d.prompt
  stdout.flush
  let line ← stdin.getLine
  let text := if line.isEmpty then Dialogue.endOfInput
    else String.ofList (Text.dropTrailing (· == '\n') line.toList)
  let reply := d.respond style text
  stdout.putStr reply.output
  match reply.answer with
  | .stop => return 0
  | .exit code => return UInt32.ofNat (code.getD 0).toNat
  | .handled | .blank | .refused => converseOnTerminal style reply.dialogue

/-- Prints the text of a run and gives its exit code. -/
def conclude (c : Completed) : IO UInt32 := do
  let stdout ← IO.getStdout
  stdout.putStr c.output
  return UInt32.ofNat c.exit.toNat

end LetLang

open LetLang in
/-- Runs what the arguments ask for. -/
def main (arguments : List String) : IO UInt32 := do
  let stdout ← IO.getStdout
  let style : Style := if ← stdout.isTty then .coloured else .plain
  match Request.ofArguments arguments with
  | .run none showTree =>
    stdout.putStrLn Dialogue.introduction
    converseOnTerminal style (Dialogue.fresh showTree)
  | .run (some path) showTree =>
    conclude (Completed.ofFile style path showTree (← loadFile path))
  | .misuse =>
    IO.eprint Completed.usage
    conclude (Completed.ofRequest style (fun _ => .unopenable) "" .misuse)
  | request => conclude (Completed.ofRequest style (fun _ => .unopenable) "" request)
