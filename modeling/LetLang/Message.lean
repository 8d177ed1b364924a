/-!
# Messages and how they look

A message is made of fixed words and snippets of source text. What is shown on a terminal
may be coloured: snippets and locations are bold, errors red, warnings magenta. The style
decides only the look. Every message and every report is the same text in both styles once
the escape sequences are taken away.
-/

namespace LetLang

/-- Whether texts are shown with terminal colours. -/
inductive Style
  | plain
  | coloured
deriving DecidableEq, Repr

/-- The ways of setting a text apart. All of them are bold. -/
inductive Accent
  | bold
  | red
  | magenta
deriving DecidableEq, Repr

namespace Accent

/-- The escape sequences that switch the accent on. -/
def code : Accent → String
  | bold => "\x1b[1m"
  | red => "\x1b[1m\x1b[31m"
  | magenta => "\x1b[1m\x1b[35m"

/-- The escape sequence that switches every accent off. -/
def reset : String := "\x1b[0m"

end Accent

/-- Shows `text` with an accent, if the style has any. -/
def Style.paint : Style → Accent → String → String
  | .plain, _, text => text
  | .coloured, accent, text => accent.code ++ text ++ Accent.reset

/-- A piece of a message. -/
inductive Piece
  | words (text : String)
  | snippet (text : String)
deriving DecidableEq, Repr

/-- The text of one piece. -/
def Piece.render (style : Style) : Piece → String
  | .words text => text
  | .snippet text => style.paint .bold text

/-- A message: its pieces in order. -/
abbrev Message := List Piece

namespace Message

/-- The text of a message. -/
def render (style : Style) (m : Message) : String :=
  String.join (m.map (Piece.render style))

/-- The message of a template: it copies `cs` and puts the next of `snippets` for each
empty pair of braces. A doubled brace stands for itself. `words` holds what was copied
since the last snippet, newest first. -/
def ofTemplateFrom (snippets : List String) (words : List Char) : List Char → Message
  | '\x7b' :: '\x7b' :: cs => ofTemplateFrom snippets ('\x7b' :: words) cs
  | '\x7d' :: '\x7d' :: cs => ofTemplateFrom snippets ('\x7d' :: words) cs
  | '\x7b' :: '\x7d' :: cs =>
    .words (String.ofList words.reverse) :: .snippet
      (snippets.headD "") :: ofTemplateFrom snippets.tail [] cs
  | c :: cs => ofTemplateFrom snippets (c :: words) cs
  | [] => [.words (String.ofList words.reverse)]

/-- The message of a template with slots for snippets. Snippets without a slot are
left out. -/
def ofTemplate (template : String) (snippets : List String) : Message :=
  ofTemplateFrom snippets [] template.toList

end Message
end LetLang
