import LetLang.Message

/-!
# Texts without their escape sequences

An escape sequence is the escape character, an opening bracket, digits and semicolons, and
the letter `m`. Taking all of them out of a text is done from left to right, so it goes
piece by piece: a piece without escape characters stays, and the sequences around a painted
piece go. `OnlyLook` says this of a text that depends on the style, whatever follows it,
and is kept when texts are joined.
-/

namespace LetLang
namespace Text

/-- The text has no escape character. -/
def Unescaped (s : String) : Prop :=
  '\x1b' ∉ s.toList

instance (s : String) : Decidable (Unescaped s) :=
  inferInstanceAs (Decidable ('\x1b' ∉ s.toList))

section Unescaped

variable {s t : String}

theorem unescaped_append_iff :
    Unescaped (s ++ t) ↔ Unescaped s ∧ Unescaped t := by
  rw [Unescaped, String.toList_append, List.mem_append, not_or]
  rfl

theorem unescaped_ofList_iff
    {cs : List Char} :
    Unescaped (String.ofList cs) ↔ '\x1b' ∉ cs := by
  rw [Unescaped, String.toList_ofList]

/-- A text whose characters all stand in an unescaped text. -/
theorem Unescaped.of_subset
    (h : Unescaped t)
    (hsub : s.toList ⊆ t.toList) :
    Unescaped s := by
  exact fun hmem => h (hsub hmem)

theorem unescaped_intercalate
    {separator : String} {items : List String}
    (hseparator : Unescaped separator)
    (hitems : ∀ item ∈ items, Unescaped item) :
    Unescaped (separator.intercalate items) := by
  induction items with
  | nil =>
      rw [String.intercalate_nil]
      decide
  | cons item items ih =>
      obtain ⟨hitem, hrest⟩ := List.forall_mem_cons.mp hitems
      cases items with
      | nil =>
          rw [String.intercalate_singleton]
          exact hitem
      | cons next items =>
          rw [String.intercalate_cons_cons, unescaped_append_iff, unescaped_append_iff]
          exact ⟨⟨hitem, hseparator⟩, ih hrest⟩

theorem unescaped_join
    {items : List String}
    (h : ∀ item ∈ items, Unescaped item) :
    Unescaped (String.join items) := by
  induction items with
  | nil => decide
  | cons item items ih =>
      obtain ⟨hitem, hrest⟩ := List.forall_mem_cons.mp h
      rw [String.join_cons, unescaped_append_iff]
      exact ⟨hitem, ih hrest⟩

end Unescaped

/-- The characters between the bracket and the letter of an escape sequence. -/
def isParameter (c : Char) : Bool :=
  c.isDigit || c == ';'

/-- The characters that are left when every escape sequence is taken out. -/
def dropEscapes : List Char → List Char
  | [] => []
  | '\x1b' :: '[' :: cs =>
    let after := cs.dropWhile isParameter
    if after.head? = some 'm' then dropEscapes after.tail
      else '\x1b' :: dropEscapes ('[' :: cs)
  | c :: cs => c :: dropEscapes cs
termination_by cs => cs.length
decreasing_by
  · have hlength := (List.dropWhile_sublist isParameter (l := cs)).length_le
    simp only [List.length_tail, List.length_cons]
    omega
  · simp
  · simp

/-- The text without its escape sequences. -/
def withoutEscapes (s : String) : String :=
  String.ofList (dropEscapes s.toList)

/-- What stands before the first escape character stays. -/
theorem dropEscapes_append
    {u : List Char}
    (h : '\x1b' ∉ u)
    (rest : List Char) :
    dropEscapes (u ++ rest) = u ++ dropEscapes rest := by
  induction u with
  | nil => rfl
  | cons c u ih =>
      obtain ⟨hc, hu⟩ := List.ne_and_not_mem_of_not_mem_cons h
      rw [List.cons_append, dropEscapes]
      · rw [ih hu]
        rfl
      · rintro cs rfl _
        exact hc rfl

/-- An escape sequence goes, whatever its parameters. -/
theorem dropEscapes_sequence
    (parameters : List Char) {rest : List Char}
    (h : parameters.all isParameter = true) :
    dropEscapes ('\x1b' :: '[' :: (parameters ++ 'm' :: rest)) = dropEscapes rest := by
  have hafter : (parameters ++ 'm' :: rest).dropWhile isParameter = 'm' :: rest := by
    rw [List.dropWhile_append_of_pos (List.all_eq_true.mp h)]
    rfl
  rw [dropEscapes, hafter]
  rfl

/-- A sequence that does not end in the letter stays. -/
example :
    dropEscapes ['a', '\x1b', '[', '1', ';', '3', 'm', 'b', '\x1b', '[', '2', 'c'] =
      ['a', 'b', '\x1b', '[', '2', 'c'] := by
  decide +kernel

end Text

open Text

theorem Accent.dropEscapes_code
    (accent : Accent) (rest : List Char) :
    dropEscapes (accent.code.toList ++ rest) = dropEscapes rest := by
  cases accent with
  | bold => exact dropEscapes_sequence ['1'] rfl
  | red =>
      calc dropEscapes (red.code.toList ++ rest)
          = dropEscapes ('\x1b' :: '[' :: (['3', '1'] ++ 'm' :: rest)) :=
            dropEscapes_sequence ['1'] rfl
        _ = dropEscapes rest := dropEscapes_sequence ['3', '1'] rfl
  | magenta =>
      calc dropEscapes (magenta.code.toList ++ rest)
          = dropEscapes ('\x1b' :: '[' :: (['3', '5'] ++ 'm' :: rest)) :=
            dropEscapes_sequence ['1'] rfl
        _ = dropEscapes rest := dropEscapes_sequence ['3', '5'] rfl

/-- The style decides only the look of the text: without its escape sequences the coloured
text is the plain one, whatever follows. -/
def OnlyLook (text : Style → String) : Prop :=
  ∀ rest, dropEscapes ((text .coloured).toList ++ rest) =
    (text .plain).toList ++ dropEscapes rest

namespace OnlyLook

theorem const
    {text : String}
    (h : Unescaped text) :
    OnlyLook fun _ => text := by
  exact dropEscapes_append h

theorem append
    {f g : Style → String}
    (hf : OnlyLook f)
    (hg : OnlyLook g) :
    OnlyLook fun style => f style ++ g style := by
  intro rest
  rw [String.toList_append, List.append_assoc, hf, hg, String.toList_append,
    List.append_assoc]

theorem paint
    {text : String}
    (accent : Accent)
    (h : Unescaped text) :
    OnlyLook fun style => style.paint accent text := by
  intro rest
  calc dropEscapes ((Style.coloured.paint accent text).toList ++ rest)
      = dropEscapes
          (accent.code.toList ++ (text.toList ++ (Accent.reset.toList ++ rest))) := by
        simp only [Style.paint, String.toList_append, List.append_assoc]
    _ = text.toList ++ dropEscapes (Accent.reset.toList ++ rest) := by
        rw [accent.dropEscapes_code, dropEscapes_append h]
    _ = text.toList ++ dropEscapes rest := congrArg _ (dropEscapes_sequence ['0'] rfl)

theorem withoutEscapes_eq
    {text : Style → String}
    (h : OnlyLook text) :
    withoutEscapes (text .coloured) = text .plain := by
  have hwhole := h []
  rw [List.append_nil, dropEscapes, List.append_nil] at hwhole
  rw [withoutEscapes, hwhole, String.ofList_toList]

end OnlyLook
end LetLang
