import LetLang.Tree.Build

/-!
# Runs of the builder

A program is built by one step for each token. `Builder.run` takes a sequence of tokens,
and the lemmas here say how runs are put together, what filling frames does to open
parentheses, and what a token does after a complete expression.
-/

namespace LetLang

/-- What succeeds in two steps succeeds in each of them. -/
theorem exists_of_bind_eq_ok
    {ε α β : Type} {x : Except ε α} {f : α → Except ε β} {b : β}
    (h : x.bind f = .ok b) :
    ∃ a, x = .ok a ∧ f a = .ok b := by
  cases x with
  | error e => cases h
  | ok a => exact ⟨a, rfl, h⟩

theorem exists_of_map_eq_ok
    {ε α β : Type} {x : Except ε α} {f : α → β} {b : β}
    (h : x.map f = .ok b) :
    ∃ a, x = .ok a ∧ f a = b := by
  cases x with
  | error e => cases h
  | ok a =>
      cases h
      exact ⟨a, rfl, rfl⟩

theorem eq_error_of_map_eq_error
    {ε α β : Type} {x : Except ε α} {f : α → β} {e : ε}
    (h : x.map f = .error e) :
    x = .error e := by
  cases x with
  | error e' =>
      cases h
      rfl
  | ok a => cases h

namespace Frame

/-- The number of parentheses that are open. -/
def openParens : List Frame → Nat
  | [] => 0
  | paren :: fs => openParens fs + 1
  | _ :: fs => openParens fs

@[simp] theorem openParens_nil :
    openParens [] = 0 := by
  rfl

@[simp] theorem openParens_paren
    (fs : List Frame) :
    openParens (paren :: fs) = openParens fs + 1 := by
  rfl

@[simp] theorem openParens_sign
    (symbol : String) (pos : Pos) (fs : List Frame) :
    openParens (sign symbol pos :: fs) = openParens fs := by
  rfl

@[simp] theorem openParens_binary
    (op : BinaryOp) (pos : Pos) (left : Node) (fs : List Frame) :
    openParens (binary op pos left :: fs) = openParens fs := by
  rfl

@[simp] theorem openParens_assign
    (target : Node) (fs : List Frame) :
    openParens (assign target :: fs) = openParens fs := by
  rfl

/-- Filling frames closes no parenthesis. -/
@[simp] theorem openParens_close
    (level : Nat) (fs : List Frame) (n : Node) :
    openParens (close level fs n).1 = openParens fs := by
  induction fs generalizing n with
  | nil => rfl
  | cons f fs ih =>
      cases f with
      | paren => simp [close, takes]
      | sign symbol pos => simp [close, takes, ih]
      | binary op pos left =>
          by_cases h : level ≤ op.level
          · simp [close, takes, h, ih]
          · simp [close, takes, h]
      | assign target =>
          by_cases h : level = 0
          · subst h
            simp [close, takes, ih]
          · simp [close, takes, h]

/-- At the end of an expression all frames are filled down to the innermost
open parenthesis. -/
theorem close_zero
    (fs : List Frame) (n : Node) :
    (close 0 fs n).1 = [] ∨ ∃ rest, (close 0 fs n).1 = paren :: rest := by
  induction fs generalizing n with
  | nil => exact Or.inl rfl
  | cons f fs ih =>
      cases f with
      | paren => exact Or.inr ⟨fs, by simp [close, takes]⟩
      | sign symbol pos => simpa [close, takes] using ih _
      | binary op pos left => simpa [close, takes] using ih _
      | assign target => simpa [close, takes] using ih _

theorem close_zero_of_no_parens
    {fs : List Frame}
    (h : openParens fs = 0)
    (n : Node) :
    ∃ whole, close 0 fs n = ([], whole) := by
  have hsame := openParens_close 0 fs n
  rcases close_zero fs n with hnil | ⟨rest, hparen⟩
  · exact ⟨(close 0 fs n).2, by rw [← hnil]⟩
  · rw [hparen, openParens_paren] at hsame
    omega

theorem close_zero_of_parens
    {fs : List Frame} {depth : Nat}
    (h : openParens fs = depth + 1)
    (n : Node) :
    ∃ rest inner, close 0 fs n = (paren :: rest, inner) ∧ openParens rest = depth := by
  have hsame := openParens_close 0 fs n
  rcases close_zero fs n with hnil | ⟨rest, hparen⟩
  · rw [hnil, openParens_nil] at hsame
    omega
  · refine ⟨rest, (close 0 fs n).2, by rw [← hparen], ?_⟩
    rw [hparen, openParens_paren] at hsame
    omega

end Frame

namespace Builder

/-- Takes tokens in order. -/
def run (b : Builder) (ts : List Token) : Except Fault Builder :=
  ts.foldlM step b

@[simp] theorem run_nil
    (b : Builder) :
    b.run [] = .ok b := by
  rfl

theorem run_cons
    (b : Builder) (t : Token) (ts : List Token) :
    b.run (t :: ts) = (b.step t).bind fun b' => b'.run ts := by
  rfl

theorem run_append
    (b : Builder) (ts us : List Token) :
    b.run (ts ++ us) = (b.run ts).bind fun b' => b'.run us := by
  simp only [run, List.foldlM_append]
  rfl

theorem run_append_of_ok
    {b b' : Builder} {ts : List Token}
    (h : b.run ts = .ok b')
    (us : List Token) :
    b.run (ts ++ us) = b'.run us := by
  rw [run_append, h]
  rfl

theorem run_cons_of_ok
    {b b' : Builder} {t : Token}
    (h : b.step t = .ok b')
    (ts : List Token) :
    b.run (t :: ts) = b'.run ts := by
  rw [run_cons, h]
  rfl

/-- Two builders that take a token alike take everything that follows it alike. -/
theorem run_cons_congr
    {b b' : Builder} {t : Token}
    (h : b.step t = b'.step t)
    (ts : List Token) :
    b.run (t :: ts) = b'.run (t :: ts) := by
  rw [run_cons, run_cons, h]

end Builder

theorem TokenStream.toProgram_eq_ok_iff
    (s : TokenStream) (program : Node) :
    s.toProgram = .ok program ↔
      ∃ b body, Builder.start.run s.tokens = .ok b ∧ b.finish s.finish = .ok body ∧
        program = .program .unknown body := by
  constructor
  · intro h
    obtain ⟨b, hrun, hrest⟩ := exists_of_bind_eq_ok h
    obtain ⟨body, hfinish, hprogram⟩ := exists_of_bind_eq_ok hrest
    cases hprogram
    exact ⟨b, body, hrun, hfinish, rfl⟩
  · rintro ⟨b, body, hrun, hfinish, rfl⟩
    change (Builder.start.run s.tokens).bind _ = _
    rw [hrun]
    change (b.finish s.finish).bind _ = _
    rw [hfinish]
    rfl

theorem parse_of_tokenize
    {source : String} {stream : TokenStream}
    (h : tokenize source = .ok stream) :
    parse source = stream.toProgram := by
  unfold parse
  rw [h]
  rfl

theorem parse_of_tokenize_error
    {source : String} {fault : Fault}
    (h : tokenize source = .error fault) :
    parse source = .error fault := by
  unfold parse
  rw [h]
  rfl

/-- A text that is read is split into tokens first. -/
theorem exists_of_parse_eq_ok
    {source : String} {program : Node}
    (h : parse source = .ok program) :
    ∃ stream, tokenize source = .ok stream ∧ stream.toProgram = .ok program :=
  exists_of_bind_eq_ok h

/-- A text is refused either while it is split into tokens or for its tokens. -/
theorem parse_eq_error
    {source : String} {fault : Fault}
    (h : parse source = .error fault) :
    tokenize source = .error fault ∨
      ∃ stream, tokenize source = .ok stream ∧ stream.toProgram = .error fault := by
  cases htokenize : tokenize source with
  | error fault' =>
      rw [parse_of_tokenize_error htokenize] at h
      cases h
      exact Or.inl rfl
  | ok stream =>
      rw [parse_of_tokenize htokenize] at h
      exact Or.inr ⟨stream, rfl, h⟩

end LetLang
