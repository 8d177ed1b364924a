import LetLang.Proofs.Dialogue.Position

/-!
# The prompt and the lines held back

A dialogue keeps the text of the lines that it holds back, the number of the first of them
and the number of all lines of program text. Blank lines and commands may stand between the
lines held back, and errors before them: none of these touches what the dialogue keeps. So
after any lines the text is the one that `Continuation.heldBack` picks out of the program
texts, the numbers count its lines, and the prompt asks for a continuation if there is such
a text.
-/

namespace LetLang
namespace Continuation

/-- Lines stay held back only if the text that they make is open. -/
theorem isOpen_heldBack
    {held : List String}
    (h : held = [] ∨ isOpen ("\n".intercalate held).toList = true)
    (lines : List String) :
    heldBack held lines = [] ∨
      isOpen ("\n".intercalate (heldBack held lines)).toList = true := by
  induction lines generalizing held with
  | nil => exact h
  | cons line lines ih =>
      rw [heldBack_cons]
      refine ih ?_
      simp only [heldBack, List.foldl_cons, List.foldl_nil]
      split
      · rename_i hopen
        exact Or.inr hopen
      · exact Or.inl rfl

/-- An open text that does not end in a blank is to be continued as it is. -/
theorem assess_of_isOpen
    {text : String}
    (hink : Text.EndsInInk text.toList)
    (hopen : isOpen text.toList = true) :
    assess text = (text, true) := by
  rw [assess, hink.trimEnd_eq, hopen]

end Continuation

namespace Dialogue

section Loop

variable {showTree : Bool} {s : Repl} {d : Dialogue}

theorem StandsAt.lineCount_eq
    (h : StandsAt showTree s d) :
    d.lineCount = s.lineCount := by
  obtain ⟨registry, _, rfl⟩ := h
  rfl

/-- What is pending, by the text that the loop holds back. -/
theorem StandsAt.pending_eq
    (h : StandsAt showTree s d) :
    d.pending = s.pending := by
  obtain ⟨registry, _, rfl⟩ := h
  rfl

theorem StandsAt.pendingText_eq
    (h : StandsAt showTree s d) :
    d.pendingText = s.text := by
  rw [pendingText, h.pending_eq]
  by_cases htext : s.text = ""
  · rw [Repl.pending_of_eq htext, htext]
  · rw [Repl.pending_of_ne htext]

/-- The prompt has been set with the text that the loop holds back. -/
theorem StandsAt.prompt_eq
    (h : StandsAt showTree s d) :
    d.prompt = if s.text = "" then "> " else ". " := by
  obtain ⟨registry, _, rfl⟩ := h
  rfl

end Loop

/--
After any lines the prompt asks for a continuation exactly if a text is held back, and this
is the text of the lines since one was last complete.
-/
theorem heard_prompts_for_held
    (showTree : Bool) (style : Style) {lines : List String}
    (hlines : ∀ l ∈ lines, '\n' ∉ l.toList) :
    let d := (fresh showTree).heard style lines
    d.lineCount = (Command.programs lines).length ∧
      d.pendingText =
        "\n".intercalate (Continuation.heldBack [] (Command.programs lines)) ∧
      (d.prompt = ". " ↔ d.pendingText ≠ "") ∧ (d.prompt = "> " ↔ d.pendingText = "") ∧
      (d.pendingText ≠ "" →
        Continuation.assess d.pendingText = (d.pendingText, true) ∧
        ∃ firstLine, d.pending = some ⟨d.pendingText, firstLine⟩ ∧
          1 ≤ firstLine ∧ firstLine ≤ d.lineCount ∧
          d.pendingText.toList.count '\n' = d.lineCount - firstLine) := by
  intro d
  have hprograms : ∀ l ∈ Command.programs lines, l ≠ "" ∧
      Text.EndsInInk l.toList := fun l hl =>
    ⟨(Command.ink_of_mem_programs hl).1, (Command.ink_of_mem_programs hl).2.1⟩
  have hstands : StandsAt showTree _ d := (standsAt_fresh showTree).heard style lines
  obtain ⟨before, hsplit, hfollows⟩ :=
    Repl.follows_start.after_heldBack hprograms showTree style
  have hopen := Continuation.isOpen_heldBack (Or.inl rfl) (Command.programs lines)
  generalize Continuation.heldBack [] (Command.programs lines) = held
    at hsplit hfollows hopen ⊢
  generalize Repl.start.after showTree style (Command.programs lines) = s
    at hfollows hstands
  rw [List.nil_append, List.nil_append] at hsplit
  have hheld : ∀ l ∈ held, l ∈ Command.programs lines :=
    fun l hl => hsplit ▸ List.mem_append_right before hl
  rw [hstands.lineCount_eq, hstands.pendingText_eq, hstands.prompt_eq,
    hfollows.lineCount_eq]
  refine ⟨?_, hfollows.text_eq, ?_, ?_, ?_⟩
  · rw [← hsplit, List.length_append]
  · by_cases htext : s.text = ""
    · simp [htext]
    · simp [htext]
  · by_cases htext : s.text = ""
    · simp [htext]
    · simp [htext]
  · intro htext
    have hne : held ≠ [] := by
      rintro rfl
      exact htext hfollows.text_eq
    have hink : Text.EndsInInk s.text.toList := by
      rw [hfollows.text_eq]
      exact Text.endsInInk_intercalate fun l hl => hprograms l (hheld l hl)
    have hnewlines : s.text.toList.count '\n' + 1 = held.length := by
      rw [hfollows.text_eq]
      exact Text.count_newline_intercalate hne fun l hl =>
        (Command.ink_of_mem_programs (hheld l hl)).2.2 hlines
    have hstart : s.firstLine = before.length + 1 := by
      rw [← hfollows.joinedLine_eq, Repl.joinedLine, if_neg htext]
    refine ⟨Continuation.assess_of_isOpen hink ?_, s.firstLine, ?_, ?_, ?_, ?_⟩
    · rw [hfollows.text_eq]
      exact hopen.resolve_left hne
    · rw [hstands.pending_eq, Repl.pending_of_ne htext]
    · omega
    · omega
    · omega

/-- A text that cannot be evaluated is behind, and a blank line and a refused command stand
between the lines held back. -/
theorem heard_prompts_for_held_string :
    let lines := ["x", "(pi +", "", "exit now", "  \"a )"]
    let d := (fresh false).heard .plain lines
    (∀ l ∈ lines, '\n' ∉ l.toList) ∧ d.prompt = ". " ∧ d.lineCount = 3 ∧
      d.pending = some ⟨"(pi +\n\"a )", 2⟩ ∧
      Continuation.assess "(pi +\n\"a )" = ("(pi +\n\"a )", true) := by
  intro lines d
  have hlines : ∀ l ∈ lines, '\n' ∉ l.toList := by
    simp [lines]
  have hprograms : Command.programs lines = ["x", "(pi +", "\"a )"] := by
    rfl
  have hheld : Continuation.heldBack [] ["x", "(pi +", "\"a )"] = ["(pi +", "\"a )"] := by
    rfl
  have htext : "\n".intercalate ["(pi +", "\"a )"] = "(pi +\n\"a )" := by
    rfl
  obtain ⟨hcount, hpending, hprompt, _, hstart⟩ :=
    heard_prompts_for_held false .plain hlines
  rw [hprograms] at hcount hpending
  rw [hheld, htext] at hpending
  have hne : d.pendingText ≠ "" := by
    rw [hpending]
    decide
  obtain ⟨hassess, firstLine, hfirst, hpos, hle, hnewlines⟩ := hstart hne
  rw [hpending] at hassess hfirst hnewlines
  have hline : firstLine = 2 := by
    have hcount' : "(pi +\n\"a )".toList.count '\n' = 1 := by
      decide
    simp only [List.length_cons, List.length_nil] at hcount
    omega
  rw [hline] at hfirst
  exact ⟨hlines, hprompt.mpr hne, hcount, hfirst, hassess⟩

end Dialogue
end LetLang
