import LetLang.Proofs.Tree.Run

/-!
# Parentheses are balanced

The parentheses that a builder has open are those that its tokens have opened and not
closed. So a program has as many closing as opening parentheses, and the end of the text is
refused for an open parenthesis only if there are more opening ones.
-/

namespace LetLang
namespace Token

/-- How many of the tokens say so. -/
def occurrences (lexeme : Lexeme) (ts : List Token) : Nat :=
  ts.countP (·.lexeme == lexeme)

/-- The tokens take the number of open parentheses from `depth` to `depth'`. -/
def Turns (ts : List Token) (depth depth' : Nat) : Prop :=
  depth + occurrences .openParen ts = depth' + occurrences .closeParen ts

theorem turns_nil
    (depth : Nat) :
    Turns [] depth depth := by
  rfl

theorem Turns.append
    {ts us : List Token} {depth depth' depth'' : Nat}
    (hts : Turns ts depth depth')
    (hus : Turns us depth' depth'') :
    Turns (ts ++ us) depth depth'' := by
  unfold Turns occurrences at *
  rw [List.countP_append, List.countP_append]
  omega

variable {t : Token}

theorem turns_open
    (h : t.lexeme = .openParen)
    (depth : Nat) :
    Turns [t] depth (depth + 1) := by
  simp [Turns, occurrences, h]

theorem turns_close
    (h : t.lexeme = .closeParen)
    (depth : Nat) :
    Turns [t] (depth + 1) depth := by
  simp [Turns, occurrences, h]

/-- A token that is no parenthesis. -/
theorem turns_other
    {lexeme : Lexeme}
    (h : t.lexeme = lexeme)
    (hopen : lexeme ≠ .openParen)
    (hclose : lexeme ≠ .closeParen)
    (depth : Nat) :
    Turns [t] depth depth := by
  subst h
  simp [Turns, occurrences, hopen, hclose]

end Token

open Token

/-- The parentheses that are open at a stage. -/
def Stage.openParens : Stage → Nat
  | operand _ frames => Frame.openParens frames
  | operator _ frames _ => Frame.openParens frames
  | _ => 0

namespace Builder

variable {b b' : Builder} {t : Token}

theorem turns_of_operand
    {goal : Goal} {frames : List Frame} {stage : Stage}
    (h : operand goal frames t = .ok stage) :
    Turns [t] (Frame.openParens frames) stage.openParens := by
  unfold operand at h
  split at h
  case h_4 hlexeme =>
    cases h
    exact turns_open hlexeme _
  case h_7 => cases h
  all_goals
    rename_i hlexeme
    cases h
    exact turns_other hlexeme nofun nofun _

theorem turns_of_begin
    {stage : Stage}
    (h : begin t = .ok stage) :
    Turns [t] 0 stage.openParens := by
  unfold begin at h
  split at h
  · rename_i hlexeme
    cases h
    exact turns_other hlexeme nofun nofun 0
  · cases h
  · exact turns_of_operand h

theorem turns_of_initializer
    {pos : Pos} {name : String} {namePos : Pos} {constant : Bool}
    (h : b.initializer pos name namePos constant t = .ok b') :
    Turns [t] 0 b'.stage.openParens := by
  unfold initializer at h
  split at h
  · rename_i hlexeme
    cases h
    exact turns_other hlexeme nofun nofun 0
  · cases h
  · rename_i hlexeme
    cases h
    exact turns_other hlexeme nofun nofun 0
  · cases h

/-- At the end of an expression, the innermost frame is an open parenthesis or there
is none. -/
theorem turns_of_conclude
    {goal : Goal} {frames : List Frame} {n : Node}
    (hframes : frames = [] ∨ ∃ rest, frames = .paren :: rest)
    (h : b.conclude goal t frames n = .ok b') :
    Turns [t] (Frame.openParens frames) b'.stage.openParens := by
  rcases hframes with rfl | ⟨rest, rfl⟩
  · simp only [conclude] at h
    split at h
    · rename_i hlexeme
      cases h
      exact turns_other hlexeme nofun nofun 0
    · obtain ⟨stage, hbegin, rfl⟩ := exists_of_map_eq_ok h
      exact turns_of_begin hbegin
    · cases h
  · simp only [conclude] at h
    split at h
    · rename_i hlexeme
      cases h
      exact turns_close hlexeme _
    · cases h

theorem turns_of_follow
    {goal : Goal} {frames : List Frame} {n : Node}
    (h : b.follow goal frames n t = .ok b') :
    Turns [t] (Frame.openParens frames) b'.stage.openParens := by
  unfold follow at h
  split at h
  · rename_i op hlexeme
    cases h
    simpa [Stage.openParens] using turns_other hlexeme nofun
      nofun (Frame.openParens frames)
  · rename_i hlexeme
    cases h
    simpa [Stage.openParens] using turns_other hlexeme nofun
      nofun (Frame.openParens frames)
  · have hturns := turns_of_conclude (Frame.close_zero frames n) h
    rwa [Frame.openParens_close] at hturns

theorem turns_of_step
    (h : b.step t = .ok b') :
    Turns [t] b.stage.openParens b'.stage.openParens := by
  obtain ⟨finished, stage⟩ := b
  cases stage with
  | ready =>
      obtain ⟨next, hbegin, rfl⟩ := exists_of_map_eq_ok h
      exact turns_of_begin hbegin
  | name pos constant =>
      simp only [step] at h
      split at h
      · rename_i hlexeme
        cases h
        exact turns_other hlexeme nofun nofun 0
      · cases h
  | value pos name namePos constant => exact turns_of_initializer h
  | operand goal frames =>
      obtain ⟨next, hoperand, rfl⟩ := exists_of_map_eq_ok h
      exact turns_of_operand hoperand
  | operator goal frames n => exact turns_of_follow h

/-- After any tokens, the open parentheses are those that have been opened and
not closed. -/
theorem turns_of_run
    {ts : List Token}
    (h : b.run ts = .ok b') :
    Turns ts b.stage.openParens b'.stage.openParens := by
  induction ts generalizing b with
  | nil =>
      cases h
      exact turns_nil _
  | cons t ts ih =>
      rw [run_cons] at h
      obtain ⟨next, hstep, hrun⟩ := exists_of_bind_eq_ok h
      exact (turns_of_step hstep).append (ih hrun)

theorem openParens_of_finish
    {pos : Pos} {body : List Node}
    (h : b.finish pos = .ok body) :
    b.stage.openParens = 0 := by
  obtain ⟨finished, stage⟩ := b
  cases stage with
  | operator goal frames n =>
      have hsame := Frame.openParens_close 0 frames n
      simp only [finish] at h
      split at h
      · cases h
      · rename_i hclose
        rw [hclose] at hsame
        exact hsame.symm
      · cases h
  | operand goal frames => cases h
  | _ => rfl

/-- The end of the text is refused for an open parenthesis only if one is open. -/
theorem openParens_pos_of_finish_error
    {pos pos' : Pos} {found : String}
    (h : b.finish pos = .error ⟨.expectedClosing found, pos'⟩) :
    0 < b.stage.openParens := by
  obtain ⟨finished, stage⟩ := b
  cases stage with
  | operator goal frames n =>
      have hsame := Frame.openParens_close 0 frames n
      simp only [finish] at h
      split at h
      · rename_i f fs inner hclose
        rcases Frame.close_zero frames n with hnil | ⟨rest, hparen⟩
        · rw [hclose] at hnil
          cases hnil
        · rw [hparen, Frame.openParens_paren] at hsame
          simp only [Stage.openParens]
          omega
      · cases h
      · cases h
  | _ => cases h

end Builder

/-- A program has as many closing parentheses as opening ones. -/
theorem TokenStream.balanced_of_toProgram
    {stream : TokenStream} {program : Node}
    (h : stream.toProgram = .ok program) :
    occurrences .openParen stream.tokens = occurrences .closeParen stream.tokens := by
  obtain ⟨b, body, hrun, hfinish, _⟩ := (stream.toProgram_eq_ok_iff program).mp h
  have hturns := Builder.turns_of_run hrun
  rw [Builder.openParens_of_finish hfinish] at hturns
  simpa [Turns, Builder.start, Stage.openParens] using hturns

end LetLang
