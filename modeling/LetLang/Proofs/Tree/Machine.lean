import LetLang.Proofs.Evaluation.Safety
import LetLang.Proofs.Tree.Run

/-!
# Reading programs on a machine that can break down

On the machine, a lexeme is cut off a text that may be too short for it, tokens are taken
from a list by a cursor that may leave it, a numeral may be no number, and the message of a
fault may not fit its template. The list of tokens ends in a mark for the end of the text.
By `Checked.parse_eq` no text breaks the machine down, and what comes out is what `parse`
gives.
-/

namespace LetLang

/-- The message of the fault can be formatted. -/
def Fault.IsPlain (fault : Fault) : Prop :=
  fault.cause.message.all Message.isPlain = true

/-- The only words of the message that are not fixed are a keyword of a declaration. -/
def Fault.IsWorded (fault : Fault) : Prop :=
  ∀ keyword found, fault.cause = .expectedName keyword found →
    ∃ constant, keyword = Builder.keyword constant

theorem Fault.isWorded_of_ne
    {fault : Fault}
    (h : ∀ keyword found, fault.cause ≠ .expectedName keyword found) :
    fault.IsWorded := by
  intro keyword found hcause
  exact absurd hcause (h keyword found)

theorem Fault.IsWorded.isPlain
    {fault : Fault}
    (h : fault.IsWorded) :
    fault.IsPlain := by
  obtain ⟨cause, pos⟩ := fault
  cases cause with
  | expectedName keyword found =>
      obtain ⟨constant, rfl⟩ := h keyword found rfl
      cases constant with
      | false => rfl
      | true => rfl
  | _ => exact Cause.isPlain_of_ne (by simp)

namespace Builder

theorem isWorded_of_operand_error
    {goal : Goal} {frames : List Frame} {t : Token} {fault : Fault}
    (h : operand goal frames t = .error fault) :
    fault.IsWorded := by
  unfold operand at h
  split at h
  case h_7 =>
    cases h
    exact Fault.isWorded_of_ne (by simp)
  all_goals cases h

theorem isWorded_of_begin_error
    {t : Token} {fault : Fault}
    (h : begin t = .error fault) :
    fault.IsWorded := by
  unfold begin at h
  split at h
  · cases h
  · cases h
    exact Fault.isWorded_of_ne (by simp)
  · exact isWorded_of_operand_error h

theorem isWorded_of_conclude_error
    {b : Builder} {goal : Goal} {t : Token} {frames : List Frame}
    {n : Node} {fault : Fault}
    (h : b.conclude goal t frames n = .error fault) :
    fault.IsWorded := by
  unfold conclude at h
  split at h
  · split at h
    · cases h
    · cases h
      exact Fault.isWorded_of_ne (by simp)
  · split at h
    · cases h
    · exact isWorded_of_begin_error (eq_error_of_map_eq_error h)
    · cases h
      exact Fault.isWorded_of_ne (by simp)

theorem isWorded_expectedName
    (constant : Bool) (found : String) (pos : Pos) :
    Fault.IsWorded ⟨.expectedName (keyword constant) found, pos⟩ := by
  intro word other h
  cases h
  exact ⟨constant, rfl⟩

/-- Whatever token is refused, the message has fixed words. -/
theorem isWorded_of_step_error
    {b : Builder} {t : Token} {fault : Fault}
    (h : b.step t = .error fault) :
    fault.IsWorded := by
  obtain ⟨finished, stage⟩ := b
  cases stage with
  | ready => exact isWorded_of_begin_error (eq_error_of_map_eq_error h)
  | name pos constant =>
      simp only [step] at h
      split at h
      · cases h
      · cases h
        exact isWorded_expectedName constant _ _
  | value pos name namePos constant =>
      simp only [step, initializer] at h
      split at h
      · cases h
      · cases h
        exact Fault.isWorded_of_ne (by simp)
      · cases h
      · cases h
        exact Fault.isWorded_of_ne (by simp)
  | operand goal frames => exact isWorded_of_operand_error (eq_error_of_map_eq_error h)
  | operator goal frames n =>
      simp only [step, follow] at h
      split at h
      · cases h
      · cases h
      · exact isWorded_of_conclude_error h

theorem isWorded_of_finish_error
    {b : Builder} {pos : Pos} {fault : Fault}
    (h : b.finish pos = .error fault) :
    fault.IsWorded := by
  obtain ⟨finished, stage⟩ := b
  cases stage with
  | ready => cases h
  | name _ constant =>
      cases h
      exact isWorded_expectedName constant _ _
  | operator goal frames n =>
      simp only [finish] at h
      split at h
      · cases h
        exact Fault.isWorded_of_ne (by simp)
      · cases h
      · cases h
        exact Fault.isWorded_of_ne (by simp)
  | _ =>
      cases h
      exact Fault.isWorded_of_ne (by simp)

end Builder

namespace Checked

/-- Fails at a position with a cause, whose message is formatted first. -/
def refuseAt {α : Type} (pos : Pos) (cause : Cause) : Except (Stop Fault) α :=
  (refuse cause).mapError (stopAt pos)

theorem refuseAt_eq
    {α : Type} {fault : Fault}
    (h : fault.IsPlain) :
    (refuseAt fault.pos fault.cause : Except (Stop Fault) α) = .error (.fault fault) := by
  rw [refuseAt, refuse_eq h]
  rfl

/-- An answer, of which the fault has its message formatted. -/
def worded {α : Type} : Except Fault α → Except (Stop Fault) α
  | .ok a => .ok a
  | .error fault => refuseAt fault.pos fault.cause

theorem worded_eq
    {α : Type} {x : Except Fault α}
    (h : ∀ fault, x = .error fault → fault.IsPlain) :
    worded x = answer x := by
  cases x with
  | ok a => rfl
  | error fault => exact refuseAt_eq (h fault rfl)

/-- The tokens of a text that starts at `pos`. A lexeme is cut off a text that must be
long enough. -/
def read (pos : Pos) : List Char → Except (Stop Fault) TokenStream
  | [] => .ok ⟨[], pos⟩
  | c :: cs =>
    if Token.isSkipped c then
      read (pos.next c) cs
    else
      match Lexeme.scan c cs with
      | .error cause => refuseAt pos cause
      | .ok (lexeme, n) =>
        if n ≤ cs.length then
          match read (pos.after (c :: cs.take n)) (cs.drop n) with
          | .error stop => .error stop
          | .ok stream => .ok ⟨⟨lexeme, pos⟩ :: stream.tokens, stream.finish⟩
        else
          .error (.trap .missingItem)
termination_by cs => cs.length
decreasing_by
  · simp only [List.length_cons]
    omega
  · simp only [List.length_cons, List.length_drop]
    omega

theorem read_eq
    (pos : Pos) (cs : List Char) :
    read pos cs = answer (TokenStream.read pos cs) := by
  fun_induction TokenStream.read pos cs with
  | case1 pos =>
      rw [read]
      rfl
  | case2 pos c cs hskip ih =>
      rw [read, if_pos hskip, ih]
  | case3 pos c cs hskip cause hscan =>
      have hplain : Fault.IsPlain ⟨cause, pos⟩ := by
        refine Cause.isPlain_of_ne ?_
        rintro keyword found rfl
        cases Lexeme.kind_of_scan_error hscan
      rw [read, if_neg hskip, hscan]
      exact refuseAt_eq hplain
  | case4 pos c cs hskip lexeme n hscan fault hread ih =>
      obtain ⟨w, rest, rfl, rfl, _, _⟩ := Lexeme.spelled_of_scan hscan
      rw [hread] at ih
      rw [read, if_neg hskip, hscan]
      simp only [List.length_append, Nat.le_add_right, if_true, ih]
      rfl
  | case5 pos c cs hskip lexeme n hscan stream hread ih =>
      obtain ⟨w, rest, rfl, rfl, _, _⟩ := Lexeme.spelled_of_scan hscan
      rw [hread] at ih
      rw [read, if_neg hskip, hscan]
      simp only [List.length_append, Nat.le_add_right, if_true, ih]
      rfl

/-- Takes the next token. If it is a numeral, it must be a number. -/
def step (b : Builder) (t : Token) : Except (Stop Fault) Builder :=
  match t.lexeme with
  | .number digits => do
    let _ ← lift (Machine.number digits.toList)
    worded (b.step t)
  | _ => worded (b.step t)

/-- The numerals of the token are numbers. -/
def IsNumeric (t : Token) : Prop :=
  ∀ digits, t.lexeme = .number digits →
    Machine.number digits.toList = .ok (Decimal.read digits.toList)

theorem step_eq
    (b : Builder) {t : Token}
    (h : IsNumeric t) :
    step b t = answer (b.step t) := by
  have hworded : worded (b.step t) = answer (b.step t) :=
    worded_eq fun fault hfault => (Builder.isWorded_of_step_error hfault).isPlain
  unfold step
  split
  · rename_i digits hdigits
    rw [h digits hdigits, ← hworded]
    rfl
  · exact hworded

/-- Takes the tokens of a list from the cursor on, up to the mark for the end of the text,
which is at `finish`. -/
def build (marks : List (Option Token)) (finish : Pos) (cursor : Nat) (b : Builder) :
    Except (Stop Fault) (List Node) :=
  match _hitem : Machine.item marks cursor with
  | .error t => .error (.trap t)
  | .ok none => worded (b.finish finish)
  | .ok (some t) =>
    match step b t with
    | .error stop => .error stop
    | .ok next => build marks finish (cursor + 1) next
termination_by marks.length - cursor
decreasing_by
  have hlt : cursor < marks.length := by
    by_contra hge
    rw [Machine.item, List.getElem?_eq_none (by omega)] at _hitem
    cases _hitem
  omega

/-- The cursor stays on the list: it stops at the mark for the end. -/
theorem build_eq
    (before : List Token) {ts : List Token} (finish : Pos) (b : Builder)
    (h : ∀ t ∈ ts, IsNumeric t) :
    build ((before ++ ts).map some ++ [none]) finish before.length b =
      answer (b.run ts >>= fun last => last.finish finish) := by
  induction ts generalizing before b with
  | nil =>
      have hitem : Machine.item ((before ++ []).map some ++ [none]) before.length =
          .ok (none : Option Token) := by
        simp [Machine.item]
      rw [build]
      split
      · rename_i hcontra
        cases hitem.symm.trans hcontra
      · exact worded_eq fun fault hfault =>
          (Builder.isWorded_of_finish_error hfault).isPlain
      · rename_i hcontra
        cases hitem.symm.trans hcontra
  | cons t ts ih =>
      obtain ⟨ht, hts⟩ := List.forall_mem_cons.mp h
      have hitem : Machine.item ((before ++ t :: ts).map some ++ [none])
          before.length = .ok (some t) := by
        simp [Machine.item]
      have hnext := fun next => ih (before ++ [t]) next hts
      rw [build]
      split
      · rename_i hcontra
        cases hitem.symm.trans hcontra
      · rename_i hcontra
        cases hitem.symm.trans hcontra
      · rename_i u hu
        cases hitem.symm.trans hu
        rw [step_eq b ht, Builder.run_cons]
        cases b.step t with
        | error fault => rfl
        | ok next =>
            have hcursor := hnext next
            rw [List.append_assoc, List.singleton_append, List.length_append,
              List.length_singleton] at hcursor
            exact hcursor

/-- Reads a program. -/
def parse (source : String) : Except (Stop Fault) Node := do
  let stream ← read .start source.toList
  let body ← build (stream.tokens.map some ++ [none]) stream.finish 0 .start
  return .program .unknown body

/-- No text breaks the machine down. -/
theorem parse_eq
    (source : String) :
    parse source = answer (LetLang.parse source) := by
  rw [parse, read_eq, LetLang.parse]
  change (answer (tokenize source) >>= _) = answer (tokenize source >>= _)
  cases htokenize : tokenize source with
  | error fault => rfl
  | ok stream =>
      have hnumeric : ∀ t ∈ stream.tokens, IsNumeric t := fun t ht digits hdigits =>
        number_of_mem_tokens htokenize ht hdigits
      have hbuild := build_eq [] stream.finish .start hnumeric
      rw [List.nil_append, List.length_nil] at hbuild
      change (build _ stream.finish 0 .start >>= _) = answer (stream.toProgram)
      rw [hbuild, TokenStream.toProgram]
      change _ = answer (Builder.start.run stream.tokens >>= fun b =>
        b.finish stream.finish >>= _)
      cases Builder.start.run stream.tokens with
      | error fault => rfl
      | ok b =>
          change (answer (b.finish stream.finish) >>= _) =
            answer (b.finish stream.finish >>= _)
          cases b.finish stream.finish with
          | error fault => rfl
          | ok body => rfl

end Checked
end LetLang
