import LetLang.Proofs.Tree.Landmark

/-!
# Where trees and refusals come from

A tree is made of tokens: each of its names, literals and operators stands where a token
says the same, and an operation stands where its left operand does. A sequence of tokens is
refused at one of them, whose text the fault quotes, or at the end.
-/

namespace LetLang
namespace Node

/-- The names, literals and operators of an expression or declaration are tokens, with
their positions. -/
def IsMadeOf (ts : List Token) : Node → Prop
  | identifier pos name => ⟨.identifier name, pos⟩ ∈ ts
  | number pos _ => ∃ digits, ⟨.number digits, pos⟩ ∈ ts
  | string pos text => ⟨.string text, pos⟩ ∈ ts
  | operation family pos symbol symbolPos left right =>
      (∃ op : BinaryOp, family = op.family ∧ symbol = op.symbol ∧
        ⟨.operator (.binary op), symbolPos⟩ ∈ ts) ∧
        pos = left.pos ∧ IsMadeOf ts left ∧ IsMadeOf ts right
  | unary pos symbol operand =>
      (∃ s : Grammar.Sign, symbol = s.operator.symbol ∧ ⟨.operator s.operator, pos⟩ ∈ ts) ∧
        IsMadeOf ts operand
  | assignment pos target value =>
      pos = target.pos ∧ IsMadeOf ts target ∧ IsMadeOf ts value
  | declaration pos name namePos constant none =>
      ⟨.declare constant, pos⟩ ∈ ts ∧ ⟨.identifier name, namePos⟩ ∈ ts
  | declaration pos name namePos constant (some value) =>
      ⟨.declare constant, pos⟩ ∈ ts ∧ ⟨.identifier name, namePos⟩ ∈ ts ∧ IsMadeOf ts value
  | _ => False

/-- A tree that is made of tokens stands where one of them does. -/
theorem exists_token_at_pos
    {ts : List Token} :
    (n : Node) → n.IsMadeOf ts → ∃ t ∈ ts, t.pos = n.pos
  | identifier _ _, h => ⟨_, h, rfl⟩
  | number _ _, ⟨_, h⟩ => ⟨_, h, rfl⟩
  | string _ _, h => ⟨_, h, rfl⟩
  | operation _ _ _ _ left _, ⟨_, hpos, hleft, _⟩ => by
      obtain ⟨t, ht, heq⟩ := exists_token_at_pos left hleft
      exact ⟨t, ht, heq.trans hpos.symm⟩
  | unary _ _ _, ⟨⟨_, _, h⟩, _⟩ => ⟨_, h, rfl⟩
  | assignment _ target _, ⟨hpos, htarget, _⟩ => by
      obtain ⟨t, ht, heq⟩ := exists_token_at_pos target htarget
      exact ⟨t, ht, heq.trans hpos.symm⟩
  | declaration _ _ _ _ none, ⟨h, _⟩ => ⟨_, h, rfl⟩
  | declaration _ _ _ _ (some _), ⟨h, _⟩ => ⟨_, h, rfl⟩

/-- A tree is made of tokens if each of its nodes stands where they say. -/
theorem isMadeOf_of_placed
    {ts : List Token} :
    (n : Node) → (∀ m ∈ n.subtrees, m.Placed ts) → n.IsMadeOf ts
  | identifier _ _, h => by
      rw [subtrees] at h
      have hmem := List.forall_mem_singleton.mp h
      exact hmem
  | number _ _, h => by
      rw [subtrees] at h
      obtain ⟨digits, hmem, _⟩ := List.forall_mem_singleton.mp h
      exact ⟨digits, hmem⟩
  | string _ _, h => by
      rw [subtrees] at h
      have hmem := List.forall_mem_singleton.mp h
      exact hmem
  | operation _ _ _ _ left right, h => by
      rw [subtrees] at h
      obtain ⟨⟨hpos, op, us, vs, hfamily, hsymbol, hpart, _⟩, h⟩ :=
        List.forall_mem_cons.mp h
      obtain ⟨hleft, hright⟩ := List.forall_mem_append.mp h
      have hop := hpart.subset (List.mem_append_right us List.mem_cons_self)
      exact ⟨⟨op, hfamily, hsymbol, hop⟩, hpos, isMadeOf_of_placed left hleft,
        isMadeOf_of_placed right hright⟩
  | unary _ _ operand, h => by
      rw [subtrees] at h
      obtain ⟨hsign, hoperand⟩ := List.forall_mem_cons.mp h
      exact ⟨hsign, isMadeOf_of_placed operand hoperand⟩
  | assignment _ target value, h => by
      rw [subtrees] at h
      obtain ⟨hpos, h⟩ := List.forall_mem_cons.mp h
      obtain ⟨htarget, hvalue⟩ := List.forall_mem_append.mp h
      exact ⟨hpos, isMadeOf_of_placed target htarget, isMadeOf_of_placed value hvalue⟩
  | declaration _ _ _ _ none, h => by
      rw [subtrees] at h
      have hpart := List.forall_mem_singleton.mp h
      exact ⟨hpart.subset (by simp), hpart.subset (by simp)⟩
  | declaration _ _ _ _ (some value), h => by
      rw [subtrees] at h
      obtain ⟨hpart, hvalue⟩ := List.forall_mem_cons.mp h
      exact ⟨hpart.subset (by simp), hpart.subset (by simp),
        isMadeOf_of_placed value hvalue⟩
  | program _ _, h | conditional _ _ _ _, h | unknown _ _, h => by
      rw [subtrees] at h
      exact (h _ List.mem_cons_self).elim

end Node

namespace Grammar

/-- Every statement of a program that is built is made of its tokens. -/
theorem isMadeOf_of_toProgram
    {stream : TokenStream} {program : Node}
    (h : stream.toProgram = .ok program) :
    ∃ body, program = .program .unknown body ∧ ∀ n ∈ body, n.IsMadeOf stream.tokens := by
  obtain ⟨body, rfl, _, hplaced⟩ := exists_laid_of_toProgram h
  refine ⟨body, rfl, ?_⟩
  intro n hn
  exact n.isMadeOf_of_placed fun m hm => hplaced m (Node.mem_subtreesAll hn hm)

end Grammar

/-- The fault refuses a token: it quotes its text and is found where it stands. -/
structure Fault.Refuses (fault : Fault) (t : Token) : Prop where
  kind_eq : fault.cause.kind = .grammar
  snippet_eq : fault.cause.snippet = t.lexeme.text
  pos_eq : fault.pos = t.pos

/-- The fault refuses the token for what it is, and not for a value that is missing
before it. -/
structure Fault.RefusesItself (fault : Fault) (t : Token) :
    Prop extends fault.Refuses t where
  cause_ne : ∀ name, fault.cause ≠ .constantWithoutValue name

/-- The fault refuses the end of the text, which is at `pos`. -/
structure Fault.RefusesEnd (fault : Fault) (pos : Pos) : Prop where
  kind_eq : fault.cause.kind = .grammar
  snippet_eq : fault.cause.snippet = Token.endText
  pos_eq : fault.pos = pos

namespace Builder

open Grammar

variable {b : Builder} {t : Token} {fault : Fault}

theorem refusesItself_of_operand_error
    {goal : Goal} {frames : List Frame}
    (h : operand goal frames t = .error fault) :
    fault.RefusesItself t := by
  unfold operand at h
  split at h
  case h_7 =>
    cases h
    exact ⟨⟨rfl, rfl, rfl⟩, by simp⟩
  all_goals cases h

theorem refusesItself_of_begin_error
    (h : begin t = .error fault) :
    fault.RefusesItself t := by
  unfold begin at h
  split at h
  · cases h
  · rename_i branch hlexeme
    cases h
    exact ⟨⟨rfl, by rw [hlexeme]; rfl, rfl⟩, by simp⟩
  · exact refusesItself_of_operand_error h

/-- Before a value is given, the semicolon of a constant is refused at the name, and
everything else at the token. -/
theorem refuses_of_initializer_error
    {pos : Pos} {name : String} {namePos : Pos} {constant : Bool}
    (h : b.initializer pos name namePos constant t = .error fault) :
    fault.RefusesItself t ∨
      constant = true ∧ t.lexeme = .semicolon ∧ fault =
        ⟨.constantWithoutValue name, namePos⟩ := by
  unfold initializer at h
  split at h
  · cases h
  · rename_i hlexeme
    cases h
    exact Or.inr ⟨rfl, hlexeme, rfl⟩
  · cases h
  · cases h
    exact Or.inl ⟨⟨rfl, rfl, rfl⟩, by simp⟩

theorem refusesItself_of_conclude_error
    {goal : Goal} {frames : List Frame} {n : Node}
    (h : b.conclude goal t frames n = .error fault) :
    fault.RefusesItself t := by
  cases frames with
  | cons f fs =>
      simp only [conclude] at h
      split at h
      · cases h
      · cases h
        exact ⟨⟨rfl, rfl, rfl⟩, by simp⟩
  | nil =>
      simp only [conclude] at h
      split at h
      · cases h
      · exact refusesItself_of_begin_error (eq_error_of_map_eq_error h)
      · cases h
        exact ⟨⟨rfl, rfl, rfl⟩, by simp⟩

theorem refusesItself_of_follow_error
    {goal : Goal} {frames : List Frame} {n : Node}
    (h : b.follow goal frames n t = .error fault) :
    fault.RefusesItself t := by
  unfold follow at h
  split at h
  · cases h
  · cases h
  · exact refusesItself_of_conclude_error h

/-- A token is refused at itself, unless it is the semicolon of a constant that has
no value. -/
theorem refuses_of_step_error
    (h : b.step t = .error fault) :
    fault.RefusesItself t ∨
      ∃ pos name namePos, b.stage = .value pos name namePos true ∧ t.lexeme = .semicolon ∧
        fault = ⟨.constantWithoutValue name, namePos⟩ := by
  obtain ⟨finished, stage⟩ := b
  cases stage with
  | ready => exact Or.inl (refusesItself_of_begin_error (eq_error_of_map_eq_error h))
  | name pos constant =>
      simp only [step] at h
      split at h
      · cases h
      · cases h
        exact Or.inl ⟨⟨rfl, rfl, rfl⟩, by simp⟩
  | value pos name namePos constant =>
      rcases refuses_of_initializer_error h with hrefuses | ⟨rfl, hlexeme, rfl⟩
      · exact Or.inl hrefuses
      · exact Or.inr ⟨pos, name, namePos, rfl, hlexeme, rfl⟩
  | operand goal frames =>
      exact Or.inl (refusesItself_of_operand_error (eq_error_of_map_eq_error h))
  | operator goal frames n => exact Or.inl (refusesItself_of_follow_error h)

/-- A run that fails has come to a token that is refused. -/
theorem exists_of_run_error
    {ts : List Token}
    (h : b.run ts = .error fault) :
    ∃ before t after b', ts = before ++ t :: after ∧ b.run before = .ok b' ∧
      b'.step t = .error fault := by
  induction ts generalizing b with
  | nil => cases h
  | cons t ts ih =>
      rw [run_cons] at h
      cases hstep : b.step t with
      | error fault' =>
          rw [hstep] at h
          cases h
          exact ⟨[], t, ts, b, rfl, rfl, hstep⟩
      | ok next =>
          rw [hstep] at h
          obtain ⟨before, u, after, b', rfl, hrun, hrefused⟩ := ih h
          exact ⟨t :: before, u, after, b', rfl,
            (run_cons_of_ok hstep before).trans hrun, hrefused⟩

/-- The name of a declaration without a value is the last token that has been read. -/
theorem exists_of_reads_value
    {ts : List Token} {pos : Pos} {name : String} {namePos : Pos} {constant : Bool}
    (hreads : Reads b ts)
    (hstage : b.stage = .value pos name namePos constant) :
    ∃ before, ts = before ++ [⟨.identifier name, namePos⟩] := by
  obtain ⟨p, us, rfl, _, _, _, hstands⟩ := hreads
  rw [hstage] at hstands
  cases hstands
  exact ⟨p.yield ++ [⟨.declare constant, pos⟩], by simp⟩

/-- Tokens are refused at one of them. -/
theorem refuses_of_run_error
    {ts : List Token}
    (h : start.run ts = .error fault) :
    ∃ t ∈ ts, fault.Refuses t := by
  obtain ⟨before, t, after, b, rfl, hrun, hstep⟩ := exists_of_run_error h
  rcases refuses_of_step_error hstep with hrefuses | ⟨pos, name, namePos, hstage, _, rfl⟩
  · exact ⟨t, by simp, hrefuses.toRefuses⟩
  · obtain ⟨first, hfirst⟩ := exists_of_reads_value (reads_start.run hrun) hstage
    rw [List.nil_append] at hfirst
    exact ⟨⟨.identifier name, namePos⟩, by simp [hfirst], rfl, rfl, rfl⟩

theorem refusesEnd_of_finish_error
    {pos : Pos}
    (h : b.finish pos = .error fault) :
    fault.RefusesEnd pos := by
  obtain ⟨finished, stage⟩ := b
  cases stage with
  | ready => cases h
  | operator goal frames n =>
      simp only [finish] at h
      split at h
      · cases h
        exact ⟨rfl, rfl, rfl⟩
      · cases h
      · cases h
        exact ⟨rfl, rfl, rfl⟩
  | _ =>
      cases h
      exact ⟨rfl, rfl, rfl⟩

end Builder

/-- A sequence of tokens is refused in a step or at its end. -/
theorem TokenStream.toProgram_eq_error
    {stream : TokenStream} {fault : Fault}
    (h : stream.toProgram = .error fault) :
    Builder.start.run stream.tokens = .error fault ∨
      ∃ b, Builder.start.run stream.tokens = .ok b ∧
        b.finish stream.finish = .error fault := by
  change (Builder.start.run stream.tokens).bind _ = _ at h
  cases hrun : Builder.start.run stream.tokens with
  | error fault' =>
      rw [hrun] at h
      cases h
      exact Or.inl rfl
  | ok b =>
      rw [hrun] at h
      change (b.finish stream.finish).bind _ = _ at h
      refine Or.inr ⟨b, rfl, ?_⟩
      cases hfinish : b.finish stream.finish with
      | error fault' =>
          rw [hfinish] at h
          cases h
          rfl
      | ok body =>
          rw [hfinish] at h
          cases h

/-- A sequence of tokens is refused at one of them or at its end. -/
theorem refuses_of_toProgram_error
    {stream : TokenStream} {fault : Fault}
    (h : stream.toProgram = .error fault) :
    (∃ t ∈ stream.tokens, fault.Refuses t) ∨ fault.RefusesEnd stream.finish := by
  rcases stream.toProgram_eq_error h with hrun | ⟨b, _, hfinish⟩
  · exact Or.inl (Builder.refuses_of_run_error hrun)
  · exact Or.inr (Builder.refusesEnd_of_finish_error hfinish)

end LetLang
