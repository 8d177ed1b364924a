import LetLang.Proofs.Dialogue.Repl
import LetLang.Proofs.Text.Lines

/-!
# What a line asks of a dialogue

A line is blank, it is one of the words `help`, `exit` and `EOF`, it is `exit` with
something after it, or it is program text. `Command.ofLine` tells these apart by the whole
line, and `Dialogue.respond` does for each of them what `Dialogue.perform` says. Only
program text reaches the loop that reads and evaluates, so a dialogue that has heard some
lines stands where the loop stands after the program texts among them.
-/

namespace LetLang

/-- What a line asks for. -/
inductive Command
  /-- Nothing: the line is blank. -/
  | nothing
  /-- An explanation of the language. -/
  | help
  /-- The end of the dialogue. -/
  | leave
  /-- The end of the dialogue, because the input ends. -/
  | close
  /-- The end of the dialogue, with an argument that it does not take. -/
  | refused (argument : String)
  /-- The evaluation of a program, or of a part of it. -/
  | program (text : String)
deriving DecidableEq, Repr

namespace Command

/-- What a line asks for, by the line without the blanks around it. A question mark stands
for the word `help`. -/
def ofLine (line : String) : Command :=
  let text := Text.trim line
  if text = "" then .nothing
  else if text = "help" ∨ text = "?" then .help
  else if text = "exit" then .leave
  else if text = "EOF" then .close
  else
    match text.toList with
    | '?' :: rest => .program ("help " ++ String.ofList rest)
    | 'e' :: 'x' :: 'i' :: 't' :: rest =>
      if rest.head?.any Dialogue.isCommandChar then .program text
        else .refused (Text.trim (String.ofList rest))
    | _ => .program text

/-- The text of a program. -/
def program? : Command → Option String
  | program text => some text
  | _ => none

/-- The program texts among some lines. -/
def programs (lines : List String) : List String :=
  lines.filterMap fun line => (ofLine line).program?

theorem programs_cons
    (line : String) (lines : List String) :
    programs (line :: lines) = (ofLine line).program?.toList ++ programs lines := by
  rw [programs, List.filterMap_cons]
  cases (ofLine line).program? <;> rfl

theorem programs_append
    (lines more : List String) :
    programs (lines ++ more) = programs lines ++ programs more := by
  exact List.filterMap_append

/-- Program text is not blank, nor does it end in a blank or have a newline that the line
does not have. -/
theorem ink_of_program
    {line text : String}
    (h : ofLine line = .program text) :
    text ≠ "" ∧ Text.EndsInInk text.toList ∧
      ('\n' ∉ line.toList → '\n' ∉ text.toList) := by
  have hink := Text.endsInInk_trim line
  have hmem : '\n' ∉ line.toList → '\n' ∉ (Text.trim line).toList :=
    fun hline hc => hline (Text.mem_of_mem_trim hc)
  unfold ofLine at h
  generalize Text.trim line = whole at hink hmem h
  dsimp only at h
  split at h
  · cases h
  · rename_i hne
    split at h
    · cases h
    · rename_i hhelp
      split at h
      · cases h
      · split at h
        · cases h
        · split at h
          · rename_i rest hlist
            cases h
            rw [hlist] at hink hmem
            have hrest : rest ≠ [] := by
              rintro rfl
              exact hhelp (Or.inr (by rw [← String.toList_inj, hlist]; rfl))
            have htext : ("help " ++ String.ofList rest).toList =
                ['h', 'e', 'l', 'p', ' '] ++ rest := by
              simp
            refine ⟨?_, ?_, ?_⟩
            · intro hempty
              rw [hempty] at htext
              cases htext
            · rw [htext]
              exact (Text.EndsInInk.right ['?'] hink).append _ hrest
            · intro hline hc
              rw [htext] at hc
              refine hmem hline (List.mem_cons_of_mem _ ?_)
              simpa using hc
          · split at h
            · cases h
              exact ⟨hne, hink, hmem⟩
            · cases h
          · cases h
            exact ⟨hne, hink, hmem⟩

/-- What the line means for the dialogue itself. -/
def answer : Command → Answer
  | nothing => .blank
  | help | program _ => .handled
  | leave | close => .stop
  | refused _ => .refused

/-- Two words end a dialogue, and nothing else does. -/
theorem answer_ofLine_eq_stop_iff
    (line : String) :
    (ofLine line).answer = .stop ↔ Text.trim line = "exit" ∨ Text.trim line = "EOF" := by
  unfold ofLine
  generalize Text.trim line = text
  by_cases hexit : text = "exit"
  · subst hexit
    simp [answer]
  · by_cases hclose : text = "EOF"
    · subst hclose
      simp [answer]
    · simp only [hexit, hclose, if_false, or_self, iff_false]
      intro h
      split at h
      · cases h
      · split at h
        · cases h
        · split at h
          · cases h
          · split at h
            · cases h
            · cases h
          · cases h

end Command

namespace Dialogue

/-- Does what a line asks for. -/
def perform (d : Dialogue) (style : Style) : Command → Reply
  | .nothing => ⟨"", .blank, d⟩
  | .help => ⟨helpText ++ "\n", .handled, d⟩
  | .leave => ⟨"Goodbye!\n", .stop, d⟩
  | .close => ⟨"\nGoodbye!\n", .stop, d⟩
  | .refused argument =>
      d.settle style "" d.workspace (.failed (.unrecognized argument)) .refused
  | .program text => d.submit style text

/-- A line that does not end in a blank is a command if it is its name, or if it is `exit`
and something that is no part of the name. -/
theorem dispatch_eq
    {text : String}
    (d : Dialogue) (style : Style)
    (h : Text.EndsInInk text.toList) :
    d.dispatch style text =
      d.perform style
        (if text = "help" then .help
        else if text = "exit" then .leave
        else if text = "EOF" then .close
        else
          match text.toList with
          | 'e' :: 'x' :: 'i' :: 't' :: rest =>
            if rest.head?.any isCommandChar then .program text
              else .refused (Text.trim (String.ofList rest))
          | _ => .program text) := by
  obtain ⟨w, rest, hsplit, hname, hargument, hw, hrest⟩ :=
    exists_leading isCommandChar text.toList
  have hempty : Text.trim (String.ofList rest) = "" ↔ rest = [] := by
    rw [hsplit] at h
    exact h.trim_eq_empty_iff
  have halone : ∀ s : String, (∀ c ∈ s.toList, isCommandChar c = true) →
      ((w = s.toList ∧ rest = []) ↔ text = s) := by
    intro s hs
    constructor
    · rintro ⟨hws, rfl⟩
      rw [← String.toList_inj, hsplit, hws, List.append_nil]
    · rintro rfl
      rw [List.takeWhile_eq_self_iff.mpr hs] at hname
      refine ⟨hname.symm, ?_⟩
      rw [← hargument, ← hname, List.drop_length]
  have hhelp := halone "help" (List.all_eq_true.mp rfl)
  have hclose := halone "EOF" (List.all_eq_true.mp rfl)
  have hleave := halone "exit" (List.all_eq_true.mp rfl)
  simp only [dispatch, hname, hargument, hempty, hhelp, hclose, leave]
  by_cases h₁ : text = "help"
  · simp only [if_pos h₁]
    rfl
  · by_cases h₂ : text = "EOF"
    · subst h₂
      rfl
    · simp only [if_neg h₁, if_neg h₂]
      by_cases hexit : w = "exit".toList
      · by_cases hrest' : rest = []
        · simp only [if_pos hexit, if_pos hrest', if_pos (hleave.mp ⟨hexit, hrest'⟩)]
          rfl
        · have h₃ : text ≠ "exit" := fun heq => hrest' (hleave.mpr heq).2
          have hany : rest.head?.any isCommandChar = false := by
            cases rest with
            | nil => rfl
            | cons c cs => exact hrest c rfl
          have hlist : text.toList = 'e' :: 'x' :: 'i' :: 't' :: rest := by
            rw [hsplit, hexit]
            rfl
          simp only [if_pos hexit, if_neg hrest', if_neg h₃, hlist, hany]
          rfl
      · have h₃ : text ≠ "exit" := fun heq => hexit (hleave.mpr heq).1
        simp only [if_neg hexit, if_neg h₃]
        split
        · rename_i rest' hlist
          -- if the name went no further than `exit`, it would be the name of that command
          have hany : rest'.head?.any isCommandChar = true := by
            by_contra hany
            refine hexit ?_
            rw [← hname, hlist]
            refine takeWhile_append_of_head (w := "exit".toList)
              (List.all_eq_true.mp rfl) ?_
            intro c hc
            cases rest' with
            | nil => cases hc
            | cons d ds =>
                cases hc
                simpa using hany
          simp only [hany]
          rfl
        · rfl

/-- The word `help` that stands for a question mark is followed by program text, unless the
question mark is alone. -/
theorem dispatch_question
    {rest : List Char}
    (d : Dialogue) (style : Style)
    (hink : Text.EndsInInk ('?' :: rest)) :
    d.dispatch style ("help " ++ String.ofList rest) =
      d.perform style (if rest = [] then .help
        else .program ("help " ++ String.ofList rest)) := by
  by_cases hrest : rest = []
  · subst hrest
    rfl
  · have hlist : ("help " ++ String.ofList rest).toList =
        'h' :: 'e' :: 'l' :: 'p' :: ' ' :: rest := by
      simp
    have hne : ∀ s : String, ' ' ∉ s.toList → "help " ++ String.ofList rest ≠ s := by
      rintro s hs rfl
      rw [hlist] at hs
      simp at hs
    have hlast : Text.EndsInInk ("help " ++ String.ofList rest).toList := by
      rw [hlist]
      exact (Text.EndsInInk.right ['?'] hink).append ['h', 'e', 'l', 'p', ' '] hrest
    rw [dispatch_eq d style hlast, if_neg (hne "help" (by decide)),
      if_neg (hne "exit" (by decide)), if_neg (hne "EOF" (by decide)), if_neg hrest, hlist]
    rfl

/-- A dialogue does what the line asks for. -/
theorem respond_eq
    (d : Dialogue) (style : Style) (line : String) :
    d.respond style line = d.perform style (.ofLine line) := by
  have hink := Text.endsInInk_trim line
  unfold respond Command.ofLine
  generalize Text.trim line = text at hink ⊢
  obtain ⟨cs, rfl⟩ : ∃ cs, text = String.ofList cs :=
    ⟨text.toList, String.ofList_toList.symm⟩
  have htext : ∀ s : String, String.ofList cs = s ↔ cs = s.toList := by
    intro s
    rw [← String.toList_inj, String.toList_ofList]
  rw [String.toList_ofList] at hink
  simp only [String.toList_ofList, htext]
  split
  · rfl
  · rename_i rest
    rw [dispatch_question d style hink]
    by_cases hrest : rest = []
    · subst hrest
      rfl
    · simp [hrest]
  · rfl
  · rename_i hempty hquestion _
    rw [dispatch_eq d style (by rwa [String.toList_ofList])]
    have hne : cs ≠ "".toList := hempty
    have hmark : cs ≠ "?".toList := fun heq => hquestion [] heq
    simp only [String.toList_ofList, htext, if_neg hne, hmark, or_false]
    congr 1
    split
    · rfl
    · split
      · rfl
      · split
        · rfl
        · split
          · rfl
          · rename_i hexit
            split
            · exact absurd rfl (hquestion _)
            · exact absurd rfl (hexit _)
            · rfl

/-- Hears lines in order. -/
def heard (style : Style) (d : Dialogue) (lines : List String) : Dialogue :=
  lines.foldl (fun d line => (d.respond style line).dialogue) d

theorem heard_cons
    (style : Style) (d : Dialogue) (line : String) (lines : List String) :
    d.heard style (line :: lines) = (d.respond style line).dialogue.heard style lines := by
  exact List.foldl_cons ..

/-- Only program text moves the loop. A command that is refused is reported, and the
registry is cleared. -/
theorem StandsAt.perform
    {showTree : Bool} {s : Repl} {d : Dialogue}
    (h : StandsAt showTree s d)
    (style : Style) (command : Command) :
    (d.perform style command).answer = command.answer ∧
      StandsAt showTree (s.after showTree style command.program?.toList)
        (d.perform style command).dialogue := by
  cases command with
  | nothing => exact ⟨rfl, h⟩
  | help => exact ⟨rfl, h⟩
  | leave => exact ⟨rfl, h⟩
  | close => exact ⟨rfl, h⟩
  | refused argument =>
      obtain ⟨registry, _, rfl⟩ := h
      exact ⟨rfl, [], Or.inl rfl, rfl⟩
  | program text => exact (h.submit style text).2

/-- Some lines lead a dialogue and the loop to the same place, if the loop takes the
program texts among them. -/
theorem StandsAt.heard
    {showTree : Bool} {s : Repl} {d : Dialogue}
    (h : StandsAt showTree s d)
    (style : Style) (lines : List String) :
    StandsAt showTree (s.after showTree style (Command.programs lines))
      (d.heard style lines) := by
  induction lines generalizing s d with
  | nil => exact h
  | cons line lines ih =>
      have hnext := (h.perform style (.ofLine line)).2
      rw [heard_cons, respond_eq, Command.programs_cons, Repl.after, List.foldl_append]
      exact ih hnext

end Dialogue
end LetLang
