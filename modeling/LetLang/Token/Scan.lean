import LetLang.Fault
import LetLang.Token.Basic

/-!
# Splitting a text into tokens

The lexical grammar. Spaces, tabs, carriage returns and newlines separate tokens. A word is
a run of letters and underscores, a number a run of digits with at most one point, and a
string everything from one double quote to the next. Operators are as long as possible. The
word `else` and a following word `if` make one token.

`Lexeme.scan` reads one lexeme, `tokenize` a whole text.
-/

namespace LetLang

/-- The characters that separate tokens. -/
def Token.isSkipped (c : Char) : Bool :=
  c == ' ' || c == '\t' || c == '\r' || c == '\n'

namespace Lexeme

/-- The characters of words. -/
def isWordChar (c : Char) : Bool :=
  c.isAlpha || c == '_'

/-- The characters of number literals. -/
def isNumeralChar (c : Char) : Bool :=
  c.isDigit || c == '.'

/-- Reads a string literal, given the text after its opening quote. -/
def scanString (cs : List Char) : Except Cause (Lexeme × Nat) :=
  let body := cs.takeWhile (· ≠ '"')
  if body.length < cs.length then
    .ok (.string (String.ofList body), body.length + 1)
  else
    .error (.unterminatedString (String.ofList ('"' :: cs)))

/-- The part of a run of digits and points that ends with the second point. -/
def throughSecondPoint (run : List Char) : List Char :=
  let whole := run.takeWhile (· ≠ '.')
  let fraction := ((run.dropWhile (· ≠ '.')).drop 1).takeWhile (· ≠ '.')
  whole ++ '.' :: fraction ++ ['.']

/-- Reads a number literal, given its first character and the text after it. -/
def scanNumber (c : Char) (cs : List Char) : Except Cause (Lexeme × Nat) :=
  let rest := cs.takeWhile isNumeralChar
  let run := c :: rest
  if 1 < run.count '.' then
    .error (.extraPoint (String.ofList (throughSecondPoint run)))
  else if run = ['.'] then
    .error (.noDigits (String.ofList run))
  else
    .ok (.number (String.ofList run), rest.length)

/-- The number of characters from the end of the word `else` to the end of a following word
`if`, if there is one after some separators. -/
def elseIfLength? (cs : List Char) : Option Nat :=
  let gap := cs.takeWhile Token.isSkipped
  match gap, cs.drop gap.length with
  | [], _ => none
  | _, 'i' :: 'f' :: after =>
      if after.head?.any isWordChar then none else some (gap.length + 2)
  | _, _ => none

/-- The lexeme of a word: a keyword or an identifier. -/
def ofWord (word : List Char) : Lexeme :=
  if word = ['l', 'e', 't'] then .declare false
  else if word = ['c', 'o', 'n', 's', 't'] then .declare true
  else if word = ['i', 'f'] then .conditional .whenTrue
  else if word = ['e', 'l', 's', 'e'] then .conditional .otherwise
  else .identifier (String.ofList word)

/-- Reads a word, given its first character and the text after it. -/
def scanWord (c : Char) (cs : List Char) : Lexeme × Nat :=
  let rest := cs.takeWhile isWordChar
  let lexeme := ofWord (c :: rest)
  match lexeme, elseIfLength? (cs.drop rest.length) with
  | .conditional .otherwise, some n => (.conditional .orWhenTrue, rest.length + n)
  | _, _ => (lexeme, rest.length)

/-- Reads the lexeme at the start of a text, given as its first character, which separates
nothing, and the others. The answer tells how many of the others belong to the lexeme. -/
def scan (c : Char) (cs : List Char) : Except Cause (Lexeme × Nat) :=
  if c = '(' then .ok (.openParen, 0)
  else if c = ')' then .ok (.closeParen, 0)
  else if c = ';' then .ok (.semicolon, 0)
  else if c = '"' then scanString cs
  else if isNumeralChar c then scanNumber c cs
  else if isWordChar c then .ok (scanWord c cs)
  else
    match Operator.scan? c cs with
    | some (op, n) => .ok (.operator op, n)
    | none => .error (.unexpectedCharacter c)

end Lexeme

namespace TokenStream

/-- The tokens of a text that starts at `pos`. -/
def read (pos : Pos) : List Char → Except Fault TokenStream
  | [] => .ok ⟨[], pos⟩
  | c :: cs =>
    if Token.isSkipped c then
      read (pos.next c) cs
    else
      match Lexeme.scan c cs with
      | .error cause => .error ⟨cause, pos⟩
      | .ok (lexeme, n) =>
        match read (pos.after (c :: cs.take n)) (cs.drop n) with
        | .error fault => .error fault
        | .ok stream => .ok ⟨⟨lexeme, pos⟩ :: stream.tokens, stream.finish⟩
termination_by cs => cs.length
decreasing_by
  · simp only [List.length_cons]
    omega
  · simp only [List.length_cons, List.length_drop]
    omega

end TokenStream

/-- Splits a text into tokens. -/
def tokenize (source : String) : Except Fault TokenStream :=
  TokenStream.read .start source.toList

end LetLang
