import LetLang.Proofs.Dialogue.Repl
import LetLang.Proofs.Token.Layout

/-!
# Lines that are held back read as one text

Lines that are held back are trimmed together with the line that follows them. What is
submitted in the end is the text of all lines, made tidy. So it has the tokens that the
lines have in a file, up to the blanks in a string literal, as long as no line ends in a
blank that is not allowed in a program.
-/

namespace LetLang
namespace Dialogue

/-- The lines are held back, up to the last one, with which a text is submitted. -/
inductive Submits (style : Style) : Dialogue → List String → String → Prop
  | last
      {d : Dialogue} {line text : String}
      (hcomplete : d.assessed line = (text, false))
      (hne : text ≠ "") :
      Submits style d [line] text
  | held
      {d : Dialogue} {line held text : String} {lines : List String}
      (hopen : d.assessed line = (held, true))
      (hrest : Submits style (d.submit style line).dialogue lines text) :
      Submits style d (line :: lines) text

/-- The dialogue holds back these lines. -/
def Holds (d : Dialogue) (lines : List String) : Prop :=
  match d.pending with
  | none => lines = []
  | some p => lines ≠ [] ∧ p.text.toList = Text.tidy ("\n".intercalate lines).toList

/-- The lines that are held back and one more line are made tidy together. -/
theorem Holds.assessed_eq
    {d : Dialogue} {lines : List String} {line : String}
    (h : d.Holds lines)
    (hline : '\n' ∉ line.toList) :
    (d.assessed line).1.toList =
      Text.tidy ("\n".intercalate (lines ++ [line])).toList := by
  obtain ⟨w, pending, count, prompt⟩ := d
  cases pending with
  | none =>
      obtain rfl : lines = [] := h
      have htail : '\n' ∉ line.toList.tail := fun hmem => hline (List.mem_of_mem_tail hmem)
      rw [List.nil_append, String.intercalate_singleton, Text.tidy_eq_dropTrailing htail]
      exact String.toList_ofList
  | some p =>
      obtain ⟨hne, htext⟩ := h
      have hjoined : ("\n".intercalate (lines ++ [line])).toList =
          ("\n".intercalate lines).toList ++ '\n' :: line.toList := by
        rw [Text.intercalate_concat hne]
        simp
      rw [hjoined, ← Text.dropTrailing_tidy_append _ hline, ← htext]
      simp [assessed, Continuation.assess, Text.trimEnd]

theorem Holds.submit
    {style : Style} {d next : Dialogue} {lines : List String} {line held : String}
    (h : d.Holds lines)
    (hline : '\n' ∉ line.toList)
    (hopen : d.assessed line = (held, true))
    (hnext : (d.submit style line).dialogue = next) :
    next.Holds (lines ++ [line]) := by
  have htext := h.assessed_eq hline
  rw [hopen] at htext
  rw [← hnext, submit_eq_assessed, hopen]
  exact ⟨by simp, htext⟩

/-- What is submitted is the text of all lines, made tidy. -/
theorem Submits.text_eq
    {style : Style} {d : Dialogue} {before lines : List String} {text : String}
    (h : d.Submits style lines text)
    (hholds : d.Holds before)
    (hlines : ∀ l ∈ lines, '\n' ∉ l.toList) :
    text.toList = Text.tidy ("\n".intercalate (before ++ lines)).toList := by
  induction h generalizing before with
  | last hcomplete hne =>
      have htext := hholds.assessed_eq (hlines _ List.mem_cons_self)
      rwa [hcomplete] at htext
  | @held d line held text lines hopen hrest ih =>
      obtain ⟨hline, hlines⟩ := List.forall_mem_cons.mp hlines
      generalize hnext : (d.submit style line).dialogue = next at ih
      have htext := ih (hholds.submit hline hopen hnext) hlines
      rwa [List.append_assoc, List.singleton_append] at htext

/-- A line that is held back is taken off the list. -/
theorem Submits.held_of_assessed
    {style : Style} {d : Dialogue} {line held text : String} {lines : List String}
    (hopen : d.assessed line = (held, true))
    (hrest : Submits style (d.holdBack held d.assessedLine) lines text) :
    Submits style d (line :: lines) text := by
  refine .held hopen ?_
  rw [submit_eq_assessed, hopen]
  exact hrest

/--
Lines that are held back until they complete a text have the tokens of the lines joined by
newlines, but for blanks at the ends of lines.
-/
theorem submits_agree
    {style : Style} {d : Dialogue} {lines : List String} {text : String}
    (hpending : d.pending = none)
    (hlines : ∀ l ∈ lines, '\n' ∉ l.toList)
    (hsubmits : d.Submits style lines text) :
    TokenStream.Agree (tokenize text) (tokenize ("\n".intercalate lines)) ∨
      ∃ fault, tokenize ("\n".intercalate lines) = .error fault ∧
        TokenStream.RefusedForBlank .start ("\n".intercalate lines).toList fault := by
  have hholds : d.Holds [] := by
    rw [Holds, hpending]
  have htext := hsubmits.text_eq hholds hlines
  rw [List.nil_append] at htext
  rw [tokenize, tokenize, htext]
  exact TokenStream.agree_read_tidy .start .start _

/-- The blanks after the string and the empty line make no difference. -/
theorem submits_agree_blank_line :
    (fresh false).Submits .plain ["(\"x", "y\"  ", "", "+ pi )"] "(\"x\ny\"\n+ pi )" ∧
      TokenStream.Agree (tokenize "(\"x\ny\"\n+ pi )")
        (tokenize "(\"x\ny\"  \n\n+ pi )") := by
  have hsubmits : (fresh false).Submits .plain ["(\"x", "y\"  ", "",
      "+ pi )"] "(\"x\ny\"\n+ pi )" := by
    refine .held_of_assessed rfl
      (.held_of_assessed rfl (.held_of_assessed rfl (.last rfl ?_)))
    decide
  have hlines : ∀ l ∈ ["(\"x", "y\"  ", "", "+ pi )"], '\n' ∉ l.toList := by
    simp
  have hstream : tokenize "(\"x\ny\"  \n\n+ pi )" = .ok
      ⟨[⟨.openParen, ⟨1, 1⟩⟩, ⟨.string "x\ny", ⟨1, 2⟩⟩,
        ⟨.operator (.binary (.arith .add)), ⟨4, 1⟩⟩, ⟨.identifier "pi", ⟨4, 3⟩⟩,
        ⟨.closeParen, ⟨4, 6⟩⟩], ⟨4, 7⟩⟩ := by
    decide +kernel
  refine ⟨hsubmits, ?_⟩
  rcases submits_agree rfl hlines hsubmits with hagree | ⟨fault, hfault, _⟩
  · exact hagree
  · cases hstream.symm.trans hfault

/--
Blanks at the end of a line are lost when it is held back: a form feed that a text may not
have, and a space in a string literal.
-/
theorem submits_disagree :
    ((fresh false).Submits .plain ["(pi\x0c", ")"] "(pi\n)" ∧
        ∃ stream fault, tokenize "(pi\n)" = .ok stream ∧
          tokenize ("\n".intercalate ["(pi\x0c", ")"]) = .error fault) ∧
      (fresh false).Submits .plain ["\"a ", "b\""] "\"a\nb\"" ∧
        ∃ first second, tokenize "\"a\nb\"" = .ok first ∧
          tokenize ("\n".intercalate ["\"a ", "b\""]) = .ok second ∧
          first.tokens.map Token.lexeme ≠ second.tokens.map Token.lexeme := by
  have htext : tokenize "(pi\n)" = .ok
      ⟨[⟨.openParen, ⟨1, 1⟩⟩, ⟨.identifier "pi", ⟨1, 2⟩⟩, ⟨.closeParen, ⟨2, 1⟩⟩],
        ⟨2, 2⟩⟩ := by
    decide +kernel
  have hlines : tokenize ("\n".intercalate ["(pi\x0c", ")"]) =
      .error ⟨.unexpectedCharacter '\x0c', ⟨1, 4⟩⟩ := by
    decide +kernel
  have hstring : tokenize "\"a\nb\"" = .ok ⟨[⟨.string "a\nb", ⟨1, 1⟩⟩], ⟨2, 3⟩⟩ := by
    decide +kernel
  have hother : tokenize ("\n".intercalate ["\"a ", "b\""]) =
      .ok ⟨[⟨.string "a \nb", ⟨1, 1⟩⟩], ⟨2, 3⟩⟩ := by
    decide +kernel
  refine ⟨⟨.held_of_assessed rfl (.last rfl (by decide)), _, _, htext, hlines⟩,
    .held_of_assessed rfl (.last rfl (by decide)), _, _, hstring, hother, ?_⟩
  simp

end Dialogue
end LetLang
