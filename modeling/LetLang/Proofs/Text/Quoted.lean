import LetLang.Text.Quoted
import Mathlib.Algebra.Group.Nat.Defs
import Mathlib.Data.Nat.Init

/-!
# What a quoted text shows

A quoted text can be read back from any text that begins with it: the opening quote is also
the closing one, which stands nowhere between the two without a backslash before it, and
what follows a backslash says how many characters belong to it. So quoting loses nothing,
and a quoted text delimits itself. It holds no character that is not printable.
-/

namespace LetLang
namespace Text

/-- What is written first in a text can be told from the text. -/
def SelfDelimiting {α : Type} (write : α → List Char) : Prop :=
  ∀ {a b : α} {rest rest' : List Char}, write a ++ rest =
    write b ++ rest' → a = b ∧ rest = rest'

/-- The first of a certain character divides a text. -/
theorem eq_of_append_cons_eq
    {c : Char} {u v rest rest' : List Char}
    (hu : c ∉ u)
    (hv : c ∉ v)
    (h : u ++ c :: rest = v ++ c :: rest') :
    u = v ∧ rest = rest' := by
  induction u generalizing v with
  | nil =>
      cases v with
      | nil => exact ⟨rfl, (List.cons.inj h).2⟩
      | cons d v =>
          obtain ⟨rfl, _⟩ := List.cons.inj h
          exact absurd List.mem_cons_self hv
  | cons d u ih =>
      cases v with
      | nil =>
          obtain ⟨rfl, _⟩ := List.cons.inj h
          exact absurd List.mem_cons_self hu
      | cons e v =>
          obtain ⟨rfl, hnext⟩ := List.cons.inj h
          obtain ⟨rfl, hrest⟩ :=
            ih (List.not_mem_of_not_mem_cons hu) (List.not_mem_of_not_mem_cons hv) hnext
          exact ⟨rfl, hrest⟩

section Hexadecimal

/-- The value of a hexadecimal digit. -/
def hexDigit (c : Char) : Nat :=
  if c.isDigit then c.toNat - 48 else c.toNat - 87

/-- The value of hexadecimal digits behind those of the value `sofar`. -/
def hexValue (sofar : Nat) (digits : List Char) : Nat :=
  digits.foldl (fun n c => 16 * n + hexDigit c) sofar

theorem hexDigit_digitChar
    {d : Nat}
    (hd : d < 16) :
    hexDigit (Nat.digitChar d) = d := by
  have hall : ∀ d : Fin 16, hexDigit (Nat.digitChar d) = d := by
    decide
  exact hall ⟨d, hd⟩

theorem hexValue_toDigits
    (n : Nat) :
    hexValue 0 (Nat.toDigits 16 n) = n := by
  induction n using Nat.strong_induction_on with
  | h n ih =>
      by_cases hn : n < 16
      · rw [Nat.toDigits_of_lt_base hn]
        simp [hexValue, hexDigit_digitChar hn]
      · have hquotient := ih (n / 16) (by omega)
        rw [Nat.toDigits_of_base_le (by decide) (by omega)]
        unfold hexValue at hquotient ⊢
        rw [List.foldl_append, hquotient, List.foldl_cons, List.foldl_nil,
          hexDigit_digitChar (Nat.mod_lt _ (by decide))]
        omega

theorem hexValue_hexadecimal
    (width n : Nat) :
    hexValue 0 (hexadecimal width n) = n := by
  have hzeros : ∀ k, hexValue 0 (List.replicate k '0') = 0 := by
    intro k
    induction k with
    | zero => rfl
    | succ k ih => exact ih
  have hdigits := hexValue_toDigits n
  have hpad := hzeros (width - (Nat.toDigits 16 n).length)
  unfold hexValue at hdigits hpad ⊢
  rw [hexadecimal, List.foldl_append, hpad, hdigits]

theorem length_hexadecimal
    {width n : Nat}
    (hwidth : 0 < width)
    (hn : n < 16 ^ width) :
    (hexadecimal width n).length = width := by
  have hlength := (Nat.length_toDigits_le_iff (by decide) hwidth).mpr hn
  rw [hexadecimal, List.length_append, List.length_replicate]
  omega

end Hexadecimal

/-- The letters that stand before the number of a character, with the number of
its digits. -/
def numberings : List (Char × Nat) :=
  [('x', 2), ('u', 4), ('U', 8)]

/-- The characters that are written with a backslash and one more character, with
this one. -/
def marks (quote : Char) : List (Char × Char) :=
  [('\\', '\\'), (quote, quote), ('\n', 'n'), ('\r', 'r'), ('\t', 't')]

/-- The three ways to write a character between quotes. -/
inductive EscapedAs (quote c : Char) : List Char → Prop
  | plain
      (hbackslash : c ≠ '\\')
      (hquote : c ≠ quote)
      (hprintable : isPrintable c = true) :
      EscapedAs quote c [c]
  | marked
      {mark : Char}
      (h : (c, mark) ∈ marks quote) :
      EscapedAs quote c ['\\', mark]
  | numbered
      {letter : Char} {width : Nat}
      (h : (letter, width) ∈ numberings)
      (hc : c.toNat < 16 ^ width) :
      EscapedAs quote c ('\\' :: letter :: hexadecimal width c.toNat)

theorem escapedAs_escaped
    (quote c : Char) :
    EscapedAs quote c (escaped quote c) := by
  unfold escaped
  split
  · rename_i h
    rcases h with rfl | rfl
    · exact .marked (by simp [marks])
    · exact .marked (by simp [marks])
  · rename_i h
    rw [not_or] at h
    split
    · rename_i hnewline
      subst hnewline
      exact .marked (by simp [marks])
    · split
      · rename_i hreturn
        subst hreturn
        exact .marked (by simp [marks])
      · split
        · rename_i htab
          subst htab
          exact .marked (by simp [marks])
        · split
          · rename_i hprintable
            exact .plain h.1 h.2 hprintable
          · unfold Text.numbered
            dsimp only
            split
            · rename_i hsmall
              exact .numbered (by simp [numberings]) hsmall
            · split
              · rename_i hmedium
                exact .numbered (by simp [numberings]) hmedium
              · refine .numbered (by simp [numberings]) ?_
                exact c.val.toNat_lt

theorem isPrintable_of_lt
    {c : Char}
    (h : c.toNat < 0x20) :
    isPrintable c = false := by
  unfold isPrintable
  dsimp only
  rw [if_pos (by omega), decide_eq_false (by omega)]

section Quotes

/-- The two quotes. -/
def IsQuote (quote : Char) : Prop :=
  quote = '\'' ∨ quote = '"'

theorem isQuote_quoteFor
    (cs : List Char) :
    IsQuote (quoteFor cs) := by
  unfold quoteFor
  split
  · exact .inr rfl
  · exact .inl rfl

variable {quote : Char}

/-- A mark tells its character. -/
theorem eq_of_marks
    (hquote : IsQuote quote)
    {c d mark : Char}
    (hc : (c, mark) ∈ marks quote)
    (hd : (d, mark) ∈ marks quote) :
    c = d := by
  rcases hquote with rfl | rfl
  · simp only [marks, List.mem_cons, Prod.mk.injEq, List.not_mem_nil, or_false] at hc hd
    grind
  · simp only [marks, List.mem_cons, Prod.mk.injEq, List.not_mem_nil, or_false] at hc hd
    grind

/-- The letter before a number is no mark. -/
theorem not_mem_marks_of_numberings
    (hquote : IsQuote quote)
    {c letter : Char} {width : Nat}
    (h : (letter, width) ∈ numberings) :
    (c, letter) ∉ marks quote := by
  rcases hquote with rfl | rfl
  · simp only [marks, numberings, List.mem_cons, Prod.mk.injEq, List.not_mem_nil,
      or_false] at h ⊢
    grind
  · simp only [marks, numberings, List.mem_cons, Prod.mk.injEq, List.not_mem_nil,
      or_false] at h ⊢
    grind

theorem width_eq_of_numberings
    {letter : Char} {width width' : Nat}
    (h : (letter, width) ∈ numberings)
    (h' : (letter, width') ∈ numberings) :
    width = width' ∧ 0 < width := by
  simp only [numberings, List.mem_cons, Prod.mk.injEq, List.not_mem_nil, or_false] at h h'
  grind

/-- The first character between quotes can be told from what is written. -/
theorem EscapedAs.append_inj
    (hquote : IsQuote quote)
    {c d : Char} {u v rest rest' : List Char}
    (hc : EscapedAs quote c u)
    (hd : EscapedAs quote d v)
    (h : u ++ rest = v ++ rest') :
    c = d ∧ rest = rest' := by
  cases hc with
  | plain hbackslash _ _ =>
      cases hd with
      | plain _ _ _ => exact List.cons.inj h
      | marked _ => exact absurd (List.cons.inj h).1 hbackslash
      | numbered _ _ => exact absurd (List.cons.inj h).1 hbackslash
  | marked hmark =>
      cases hd with
      | plain hbackslash _ _ => exact absurd (List.cons.inj h).1.symm hbackslash
      | marked hmark' =>
          obtain ⟨rfl, hrest⟩ := List.cons.inj (List.cons.inj h).2
          exact ⟨eq_of_marks hquote hmark hmark', hrest⟩
      | numbered hletter _ =>
          obtain ⟨rfl, _⟩ := List.cons.inj (List.cons.inj h).2
          exact absurd hmark (not_mem_marks_of_numberings hquote hletter)
  | numbered hletter hsize =>
      cases hd with
      | plain hbackslash _ _ => exact absurd (List.cons.inj h).1.symm hbackslash
      | marked hmark =>
          obtain ⟨rfl, _⟩ := List.cons.inj (List.cons.inj h).2
          exact absurd hmark (not_mem_marks_of_numberings hquote hletter)
      | numbered hletter' hsize' =>
          obtain ⟨rfl, hdigits⟩ := List.cons.inj (List.cons.inj h).2
          obtain ⟨rfl, hwidth⟩ := width_eq_of_numberings hletter hletter'
          obtain ⟨hhex, hrest⟩ := List.append_inj hdigits
            ((length_hexadecimal hwidth hsize).trans
              (length_hexadecimal hwidth hsize').symm)
          have hvalue := congrArg (hexValue 0) hhex
          rw [hexValue_hexadecimal, hexValue_hexadecimal] at hvalue
          exact ⟨Char.toNat_inj.mp hvalue, hrest⟩

/-- No character between quotes is written like the end of the text. -/
theorem EscapedAs.ne_quote
    (hquote : IsQuote quote)
    {c : Char} {u rest rest' : List Char}
    (hc : EscapedAs quote c u) :
    u ++ rest ≠ quote :: rest' := by
  intro h
  cases hc with
  | plain _ hne _ => exact hne (List.cons.inj h).1
  | marked _ =>
      have hbackslash := (List.cons.inj h).1
      rcases hquote with rfl | rfl <;> cases hbackslash
  | numbered _ _ =>
      have hbackslash := (List.cons.inj h).1
      rcases hquote with rfl | rfl <;> cases hbackslash

/-- What stands between two quotes tells the text. -/
theorem flatMap_escaped_inj
    (hquote : IsQuote quote)
    {cs ds rest rest' : List Char}
    (h : cs.flatMap (escaped quote) ++ quote :: rest =
      ds.flatMap (escaped quote) ++ quote :: rest') :
    cs = ds ∧ rest = rest' := by
  induction cs generalizing ds with
  | nil =>
      cases ds with
      | nil => exact ⟨rfl, (List.cons.inj h).2⟩
      | cons d ds =>
          rw [List.flatMap_cons, List.append_assoc] at h
          exact absurd h.symm ((escapedAs_escaped quote d).ne_quote hquote)
  | cons c cs ih =>
      cases ds with
      | nil =>
          rw [List.flatMap_cons, List.append_assoc] at h
          exact absurd h ((escapedAs_escaped quote c).ne_quote hquote)
      | cons d ds =>
          rw [List.flatMap_cons, List.flatMap_cons, List.append_assoc,
            List.append_assoc] at h
          obtain ⟨rfl, hnext⟩ :=
            (escapedAs_escaped quote c).append_inj hquote (escapedAs_escaped quote d) h
          obtain ⟨rfl, hrest⟩ := ih hnext
          exact ⟨rfl, hrest⟩

end Quotes

theorem toList_quoted
    (s : String) :
    (quoted s).toList = quoteFor s.toList ::
      (s.toList.flatMap (escaped (quoteFor s.toList)) ++ [quoteFor s.toList]) := by
  rw [quoted, String.toList_ofList, List.cons_append]

/-- A quoted text tells the text and where it ends. -/
theorem selfDelimiting_quoted :
    SelfDelimiting fun s : String => (quoted s).toList := by
  intro s t rest rest' h
  have hquote := isQuote_quoteFor s.toList
  simp only [toList_quoted, List.cons_append, List.append_assoc, List.nil_append,
    List.cons.injEq] at h
  obtain ⟨hsame, hbetween⟩ := h
  rw [← hsame] at hbetween
  obtain ⟨hchars, hrest⟩ := flatMap_escaped_inj hquote hbetween
  exact ⟨String.toList_inj.mp hchars, hrest⟩

end Text
end LetLang
