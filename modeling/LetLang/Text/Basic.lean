/-!
# Texts

Texts as lists of characters: their lines, of which there is always at least one, the
positions of their characters, the blanks around a line of input, and the digits of all
scripts. The lexical grammar has a smaller set of blanks of its own: see
`LetLang.Token.isSkipped`.
-/

namespace LetLang

/-- A line and a column of a source text. Line zero means that no place is known. -/
structure Pos where
  line : Nat
  column : Nat
deriving DecidableEq, Repr, Inhabited

namespace Pos

/-- The position of whatever stands for no single place. -/
def unknown : Pos := ⟨0, 0⟩

/-- The position of the first character of a text. -/
def start : Pos := ⟨1, 1⟩

/-- The position that follows the character `c` standing at `p`. -/
def next (p : Pos) (c : Char) : Pos :=
  if c = '\n' then ⟨p.line + 1, 1⟩ else ⟨p.line, p.column + 1⟩

/-- The position that follows all of `cs`, the first of which stands at `p`. -/
def after (p : Pos) (cs : List Char) : Pos :=
  cs.foldl next p

@[simp] theorem after_nil (p : Pos) : p.after [] = p := by
  rfl

@[simp] theorem after_cons (p : Pos) (c : Char) (cs : List Char) :
    p.after (c :: cs) = (p.next c).after cs := by
  rfl

@[simp] theorem after_append (p : Pos) (cs ds : List Char) :
    p.after (cs ++ ds) = (p.after cs).after ds := by
  simp [after]

end Pos

namespace Text

/-- Drops the longest trailing run of characters that satisfy `p`. -/
def dropTrailing (p : Char → Bool) (cs : List Char) : List Char :=
  (cs.reverse.dropWhile p).reverse

/-- The lines of a text: the runs between newlines, empty ones included. -/
def lines (cs : List Char) : List (List Char) :=
  cs.splitOn '\n'

/-- Tells whether `n` lies in one of the ranges. -/
def inRanges (n : Nat) (ranges : List (Nat × Nat)) : Bool :=
  ranges.any fun r => r.1 ≤ n && n ≤ r.2

@[simp] theorem lines_nil : lines [] = [[]] := by
  rfl

theorem intercalate_lines (cs : List Char) :
    List.intercalate ['\n'] (lines cs) = cs := by
  exact List.intercalate_splitOn '\n'

theorem lines_ne_nil (cs : List Char) : lines cs ≠ [] := by
  exact List.splitOn_ne_nil '\n' cs

/-! ## Blanks -/

/-- The ranges of blank characters, ascending. -/
def blankRanges : List (Nat × Nat) :=
  [(0x0009, 0x000D), (0x001C, 0x0020), (0x0085, 0x0085), (0x00A0, 0x00A0),
   (0x1680, 0x1680), (0x2000, 0x200A), (0x2028, 0x2029), (0x202F, 0x202F),
   (0x205F, 0x205F), (0x3000, 0x3000)]

/-- White space, in every script. -/
def isBlank (c : Char) : Bool :=
  inRanges c.toNat blankRanges

/-- Removes blanks at the end. -/
def trimEnd (s : String) : String :=
  String.ofList (dropTrailing isBlank s.toList)

/-- Removes blanks at both ends. -/
def trim (s : String) : String :=
  String.ofList (dropTrailing isBlank (s.toList.dropWhile isBlank))

/-! ## Digits -/

/-- The zeros of all scripts, ascending. -/
def zeros : List Nat :=
  [0x0030, 0x0660, 0x06F0, 0x07C0, 0x0966, 0x09E6, 0x0A66, 0x0AE6, 0x0B66, 0x0BE6, 0x0C66,
   0x0CE6, 0x0D66, 0x0DE6, 0x0E50, 0x0ED0, 0x0F20, 0x1040, 0x1090, 0x17E0, 0x1810, 0x1946,
   0x19D0, 0x1A80, 0x1A90, 0x1B50, 0x1BB0, 0x1C40, 0x1C50, 0xA620, 0xA8D0, 0xA900, 0xA9D0,
   0xA9F0, 0xAA50, 0xABF0, 0xFF10, 0x104A0, 0x10D30, 0x11066, 0x110F0, 0x11136, 0x111D0,
   0x112F0, 0x11450, 0x114D0, 0x11650, 0x116C0, 0x11730, 0x118E0, 0x11950, 0x11C50,
   0x11D50, 0x11DA0, 0x16A60, 0x16AC0, 0x16B50, 0x1D7CE, 0x1D7D8, 0x1D7E2, 0x1D7EC,
   0x1D7F6, 0x1E140, 0x1E2F0, 0x1E950, 0x1FBF0]

/-- A digit from 0 to 9, in any script. -/
def isDecimalDigit (c : Char) : Bool :=
  zeros.any fun first => first ≤ c.toNat && c.toNat < first + 10

end Text
end LetLang
