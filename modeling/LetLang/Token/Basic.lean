import LetLang.Operator
import LetLang.Text.Basic
import LetLang.Text.Quoted

/-!
# Tokens

A token is a lexeme, which says what is written, with the position of its first character.
A text that splits into tokens gives them in order together with the position of its end.
-/

namespace LetLang

/-- The three keywords of a conditional statement, each of which opens a branch. -/
inductive Branch
  | whenTrue
  | orWhenTrue
  | otherwise
deriving DecidableEq, Repr

namespace Branch

/-- How the keyword is written. -/
def keyword : Branch → String
  | whenTrue => "if"
  | orWhenTrue => "else if"
  | otherwise => "else"

/-- The keyword as a label. -/
def label : Branch → String
  | whenTrue => "IF"
  | orWhenTrue => "ELSE_IF"
  | otherwise => "ELSE"

/-- Whether the branch is taken, given whether its condition holds. -/
def isTaken : Branch → Bool → Bool
  | otherwise, holds => !holds
  | _, holds => holds

end Branch

/-- What a token says. -/
inductive Lexeme
  | number (digits : String)
  | identifier (name : String)
  | string (text : String)
  | operator (op : Operator)
  | semicolon
  | openParen
  | closeParen
  | declare (constant : Bool)
  | conditional (branch : Branch)
deriving DecidableEq, Repr

namespace Lexeme

/-- The text of the token, without the quotes of a string. -/
def text : Lexeme → String
  | number s | identifier s | string s => s
  | operator op => op.symbol
  | semicolon => ";"
  | openParen => "("
  | closeParen => ")"
  | declare false => "let"
  | declare true => "const"
  | conditional branch => branch.keyword

/-- The name of the token's kind. The two signs of equality share one kind, assignment and
comparison alike. -/
def kindName : Lexeme → String
  | number _ => "Number"
  | identifier _ => "Identifier"
  | string _ => "String"
  | operator (.binary (.logic .eq)) | operator .assign => "Equals"
  | operator (.binary (.logic .ne)) => "NotEquals"
  | operator .not => "UnaryOperator"
  | operator (.binary _) => "BinaryOperator"
  | semicolon => "Semicolon"
  | openParen => "OpenParen"
  | closeParen => "CloseParen"
  | declare false => "Let"
  | declare true => "Const"
  | conditional .whenTrue => "If"
  | conditional .orWhenTrue => "ElseIf"
  | conditional .otherwise => "Else"

end Lexeme

/-- A lexeme and the position of its first character. -/
structure Token where
  lexeme : Lexeme
  pos : Pos
deriving DecidableEq, Repr

namespace Token

/-- The kind and the text of a token on one line. -/
def describe (kindName text : String) : String :=
  kindName ++ "(" ++ Text.quoted text ++ ")"

/-- The name of the kind of token that marks the end of a text. -/
def endKindName : String := "EndOfFile"

/-- What is named where a token is missing because the text ends. -/
def endText : String := "End of file"

end Token

/-- All tokens of a text, and the position of its end. -/
structure TokenStream where
  tokens : List Token
  finish : Pos
deriving DecidableEq, Repr

end LetLang
