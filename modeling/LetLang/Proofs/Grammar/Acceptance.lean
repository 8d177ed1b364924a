import LetLang.Proofs.Grammar.Unambiguous
import LetLang.Proofs.Tree.Run

/-!
# The builder accepts every derivable program

Whether a token is taken depends on the stage of the builder and on how many parentheses
are open, and not on what the frames hold. So the builder runs through the tokens of every
derivation, settled or not. Where a derivation begins a statement with a minus sign that
the builder takes for an operator, what follows the sign is an expression all the same.
-/

namespace LetLang
namespace Grammar

open Builder LetLang.Frame

/--
The builder runs through the tokens, from the place of an operand to the place after it, or
after an operand for a repeated part.
-/
def Passes : Nonterminal → List Token → Prop
  | .level _, ts =>
      ∀ finished goal frames,
        ∃ frames' node',
          run ⟨finished, .operand goal frames⟩ ts =
            .ok ⟨finished, .operator goal frames' node'⟩ ∧
          openParens frames' = openParens frames
  | .rest _, ts =>
      ∀ finished goal frames node,
        ∃ frames' node',
          run ⟨finished, .operator goal frames node⟩ ts =
            .ok ⟨finished, .operator goal frames' node'⟩ ∧
          openParens frames' = openParens frames

theorem step_binary
    (finished : List Node) (goal : Goal) (frames : List Frame) (node : Node)
    (op : BinaryOp) (pos : Pos) :
    ∃ frames',
      step ⟨finished, .operator goal frames node⟩ ⟨.operator (.binary op), pos⟩ =
        .ok ⟨finished, .operand goal frames'⟩ ∧
      openParens frames' = openParens frames := by
  refine ⟨.binary op pos (close op.level frames node).2 :: (close op.level frames node).1,
    rfl, ?_⟩
  simp

theorem step_assign
    (finished : List Node) (goal : Goal) (frames : List Frame) (node : Node) (pos : Pos) :
    ∃ frames',
      step ⟨finished, .operator goal frames node⟩ ⟨.operator .assign, pos⟩ =
        .ok ⟨finished, .operand goal frames'⟩ ∧
      openParens frames' = openParens frames := by
  refine ⟨.assign (close 1 frames node).2 :: (close 1 frames node).1, rfl, ?_⟩
  simp

theorem step_sign
    (finished : List Node) (goal : Goal) (frames : List Frame) (s : Sign) (pos : Pos) :
    step ⟨finished, .operand goal frames⟩ ⟨.operator s.operator, pos⟩ =
      .ok ⟨finished, .operand goal (.sign s.operator.symbol pos :: frames)⟩ := by
  cases s <;> rfl

theorem step_closeParen
    (finished : List Node) (goal : Goal) {frames : List Frame}
    {depth : Nat} (node : Node) (pos : Pos)
    (h : openParens frames = depth + 1) :
    ∃ frames' node',
      step ⟨finished, .operator goal frames node⟩ ⟨.closeParen, pos⟩ =
        .ok ⟨finished, .operator goal frames' node'⟩ ∧
      openParens frames' = depth := by
  obtain ⟨rest, inner, hclose, hdepth⟩ := close_zero_of_parens h node
  exact ⟨rest, inner, by simp [step, follow, hclose, conclude], hdepth⟩

theorem step_semicolon
    (finished : List Node) (goal : Goal) {frames : List Frame} (node : Node) (pos : Pos)
    (h : openParens frames = 0) :
    ∃ n, step ⟨finished, .operator goal frames node⟩ ⟨.semicolon, pos⟩ =
      .ok ⟨n :: finished, .ready⟩ := by
  obtain ⟨whole, hclose⟩ := close_zero_of_no_parens h node
  exact ⟨goal.finish whole, by simp [step, follow, hclose, conclude]⟩

/-- The builder runs through every derivation of an expression. -/
theorem Derivation.passes
    {N : Nonterminal} (d : Derivation N) :
    Passes N d.yield := by
  induction d with
  | plain e ih =>
      exact ih
  | assignment target pos value ihTarget ihValue =>
      intro finished goal frames
      obtain ⟨f₁, n₁, hrun₁, hopen₁⟩ := ihTarget finished goal frames
      obtain ⟨f₂, hstep, hopen₂⟩ := step_assign finished goal f₁ n₁ pos
      obtain ⟨f₃, n₃, hrun₃, hopen₃⟩ := ihValue finished goal f₂
      refine ⟨f₃, n₃, ?_, by omega⟩
      rw [yield, run_append_of_ok hrun₁, run_cons_of_ok hstep, hrun₃]
  | chain loosest tightest first rest ihFirst ihRest =>
      intro finished goal frames
      obtain ⟨f₁, n₁, hrun₁, hopen₁⟩ := ihFirst finished goal frames
      obtain ⟨f₂, n₂, hrun₂, hopen₂⟩ := ihRest finished goal f₁ n₁
      refine ⟨f₂, n₂, ?_, by omega⟩
      rw [yield, run_append_of_ok hrun₁, hrun₂]
  | stop =>
      intro finished goal frames node
      exact ⟨frames, node, rfl, rfl⟩
  | link op hop pos operand rest ihOperand ihRest =>
      intro finished goal frames node
      obtain ⟨f₁, hstep, hopen₁⟩ := step_binary finished goal frames node op pos
      obtain ⟨f₂, n₂, hrun₂, hopen₂⟩ := ihOperand finished goal f₁
      obtain ⟨f₃, n₃, hrun₃, hopen₃⟩ := ihRest finished goal f₂ n₂
      refine ⟨f₃, n₃, ?_, by omega⟩
      rw [yield, run_cons_of_ok hstep, run_append_of_ok hrun₂, hrun₃]
  | sign s pos operand ih =>
      intro finished goal frames
      obtain ⟨f₁, n₁, hrun, hopen⟩ :=
        ih finished goal (.sign s.operator.symbol pos :: frames)
      refine ⟨f₁, n₁, ?_, by simpa using hopen⟩
      rw [yield, run_cons_of_ok (step_sign finished goal frames s pos), hrun]
  | primary e ih =>
      exact ih
  | identifier pos name =>
      intro finished goal frames
      exact ⟨frames, _, rfl, rfl⟩
  | number pos digits =>
      intro finished goal frames
      exact ⟨frames, _, rfl, rfl⟩
  | string pos text =>
      intro finished goal frames
      exact ⟨frames, _, rfl, rfl⟩
  | paren opening inner closing ih =>
      intro finished goal frames
      obtain ⟨f₁, n₁, hrun₁, hopen₁⟩ := ih finished goal (.paren :: frames)
      rw [openParens_paren] at hopen₁
      obtain ⟨f₂, n₂, hstep, hopen₂⟩ := step_closeParen finished goal n₁ closing hopen₁
      have hopening :
          step ⟨finished, .operand goal frames⟩ ⟨.openParen, opening⟩ =
            .ok ⟨finished, .operand goal (.paren :: frames)⟩ := by
        rfl
      refine ⟨f₂, n₂, ?_, hopen₂⟩
      rw [yield, run_cons_of_ok hopening, run_append_of_ok hrun₁,
        run_cons_of_ok hstep, run_nil]

/-- Without its first sign an expression is still one of the same level. -/
theorem Derivation.exists_without_sign
    {l : Nat} (d : Derivation (.level l)) {s : Sign} {pos : Pos} {ts : List Token}
    (h : d.yield = ⟨.operator s.operator, pos⟩ :: ts) :
    ∃ d' : Derivation (.level l), d'.yield = ts := by
  generalize hN : Nonterminal.level l = N at d
  induction d generalizing l ts with
  | plain e ih =>
      cases hN
      obtain ⟨e', he'⟩ := ih rfl h
      exact ⟨plain e', he'⟩
  | assignment target mark value ihTarget ihValue =>
      cases hN
      obtain ⟨t, us, hyield, _⟩ := target.exists_yield_eq_cons
      rw [yield, hyield, List.cons_append, List.cons.injEq] at h
      obtain ⟨rfl, rfl⟩ := h
      obtain ⟨target', htarget'⟩ := ihTarget rfl hyield
      exact ⟨assignment target' mark value, by rw [yield, htarget']⟩
  | chain loosest tightest first rest ihFirst ihRest =>
      cases hN
      obtain ⟨t, us, hyield, _⟩ := first.exists_yield_eq_cons
      rw [yield, hyield, List.cons_append, List.cons.injEq] at h
      obtain ⟨rfl, rfl⟩ := h
      obtain ⟨first', hfirst'⟩ := ihFirst rfl hyield
      exact ⟨chain loosest tightest first' rest, by rw [yield, hfirst']⟩
  | stop =>
      cases hN
  | link op hop mark operand rest ihOperand ihRest =>
      cases hN
  | sign s' mark operand ih =>
      cases hN
      rw [yield, List.cons.injEq] at h
      exact ⟨operand, h.2⟩
  | primary e ih =>
      cases hN
      obtain ⟨e', he'⟩ := ih rfl h
      exact ⟨primary e', he'⟩
  | identifier mark name =>
      simp [yield] at h
  | number mark digits =>
      simp [yield] at h
  | string mark text =>
      simp [yield] at h
  | paren opening inner closing ih =>
      simp [yield] at h

/-- A builder that may begin a statement: nothing is unfinished, or only an expression that
may end here. -/
def AtBoundary (b : Builder) : Prop :=
  b.stage = .ready ∨ ∃ frames node, b.stage =
    .operator .statement frames node ∧ openParens frames = 0

theorem atBoundary_start :
    AtBoundary .start := by
  exact Or.inl rfl

/-- Where nothing is unfinished, a token that begins an expression is taken as its
first operand. -/
theorem step_ready
    (finished : List Node) {t : Token}
    (ht : beginsOperand t.lexeme = true) :
    step ⟨finished, .ready⟩ t = step ⟨finished, .operand .statement []⟩ t := by
  obtain ⟨lexeme, pos⟩ := t
  cases lexeme <;> simp_all [step, begin, beginsOperand]

/-- A token that begins a statement and does not go on with an expression ends the
expression before it. -/
theorem step_after_expression
    (finished : List Node) {frames : List Frame} (node : Node) {t : Token}
    (hopen : openParens frames = 0)
    (ht : beginsStatement t.lexeme = true)
    (hminus : isMinus t = false) :
    ∃ whole,
      step ⟨finished, .operator .statement frames node⟩ t =
        step ⟨whole :: finished, .ready⟩ t := by
  obtain ⟨whole, hclose⟩ := close_zero_of_no_parens hopen node
  refine ⟨whole, ?_⟩
  obtain ⟨lexeme, pos⟩ := t
  cases lexeme with
  | operator op =>
      cases op with
      | binary op =>
          rcases op with op | op <;> cases op <;>
            simp_all [beginsStatement, beginsOperand, isMinus, Sign.operator]
      | assign => simp [beginsStatement, beginsOperand] at ht
      | not => simp [step, follow, hclose, conclude]
  | semicolon => simp [beginsStatement, beginsOperand] at ht
  | closeParen => simp [beginsStatement, beginsOperand] at ht
  | conditional branch => simp [beginsStatement, beginsOperand] at ht
  | number digits => simp [step, follow, hclose, conclude]
  | identifier name => simp [step, follow, hclose, conclude]
  | string text => simp [step, follow, hclose, conclude]
  | openParen => simp [step, follow, hclose, conclude]
  | declare constant => simp [step, follow, hclose, conclude]

/-- An expression statement is taken wherever a statement may begin. -/
theorem passes_expression
    {b : Builder}
    (hb : AtBoundary b)
    (e : Derivation (.level 0)) :
    ∃ finished frames node,
      b.run e.yield = .ok ⟨finished, .operator .statement frames node⟩ ∧
        openParens frames = 0 := by
  obtain ⟨t, ts, hyield, ht⟩ := e.exists_yield_eq_cons
  have hready :
      ∀ finished, ∃ frames node,
        run ⟨finished, .ready⟩ e.yield = .ok ⟨finished, .operator .statement frames node⟩ ∧
        openParens frames = 0 := by
    intro finished
    obtain ⟨frames, node, hrun, hopen⟩ := e.passes finished .statement []
    refine ⟨frames, node, ?_, hopen⟩
    rw [hyield] at hrun ⊢
    rw [run_cons_congr (step_ready finished ht), hrun]
  obtain ⟨finished, stage⟩ := b
  rcases hb with hstage | ⟨frames, node, hstage, hopen⟩
  · cases hstage
    obtain ⟨frames, node, hrun, hopen⟩ := hready finished
    exact ⟨finished, frames, node, hrun, hopen⟩
  · cases hstage
    cases hminus : isMinus t with
    | false =>
        obtain ⟨whole, hstep⟩ :=
          step_after_expression finished node hopen
            (beginsStatement_of_beginsOperand ht) hminus
        obtain ⟨frames', node', hrun, hopen'⟩ := hready (whole :: finished)
        refine ⟨whole :: finished, frames', node', ?_, hopen'⟩
        rw [hyield] at hrun ⊢
        rw [run_cons_congr hstep, hrun]
    | true =>
        obtain ⟨lexeme, pos⟩ := t
        have hlexeme : lexeme = .operator Sign.minus.operator := by
          simpa [isMinus] using hminus
        subst hlexeme
        obtain ⟨e', he'⟩ := e.exists_without_sign hyield
        obtain ⟨f₁, hstep, hopen₁⟩ :=
          step_binary finished .statement frames node (.arith .sub) pos
        obtain ⟨f₂, n₂, hrun, hopen₂⟩ := e'.passes finished .statement f₁
        refine ⟨finished, f₂, n₂, ?_, by omega⟩
        rw [hyield, ← he']
        exact (run_cons_of_ok hstep e'.yield).trans hrun

/-- A declaration is taken wherever a statement may begin. -/
theorem step_declare
    {b : Builder}
    (hb : AtBoundary b)
    (constant : Bool) (pos : Pos) :
    ∃ finished, b.step ⟨.declare constant, pos⟩ = .ok ⟨finished, .name pos constant⟩ := by
  obtain ⟨finished, stage⟩ := b
  rcases hb with hstage | ⟨frames, node, hstage, hopen⟩
  · cases hstage
    exact ⟨finished, rfl⟩
  · cases hstage
    obtain ⟨whole, hstep⟩ :=
      step_after_expression finished (t := ⟨.declare constant, pos⟩) node hopen rfl rfl
    exact ⟨whole :: finished, by rw [hstep]; rfl⟩

/-- Every statement leads from a boundary to the next. -/
theorem passes_statement
    {b : Builder}
    (hb : AtBoundary b)
    (s : Statement) :
    ∃ b', b.run s.yield = .ok b' ∧ AtBoundary b' := by
  cases s with
  | unset keyword name namePos semicolon =>
      obtain ⟨finished, hstep⟩ := step_declare hb false keyword
      refine ⟨⟨.declaration keyword name namePos false none :: finished, .ready⟩, ?_,
        Or.inl rfl⟩
      rw [Statement.yield, run_cons_of_ok hstep]
      rfl
  | set constant keyword name namePos equals value semicolon =>
      obtain ⟨finished, hstep⟩ := step_declare hb constant keyword
      obtain ⟨frames, node, hrun, hopen⟩ :=
        value.passes finished (.declaration keyword name namePos constant) []
      obtain ⟨n, hsemi⟩ := step_semicolon finished _ node semicolon hopen
      have hname :
          step ⟨finished, .name keyword constant⟩ ⟨.identifier name, namePos⟩ =
            .ok ⟨finished, .value keyword name namePos constant⟩ := by
        rfl
      have hequals :
          step ⟨finished, .value keyword name namePos constant⟩
            ⟨.operator .assign, equals⟩ =
            .ok ⟨finished, .operand (.declaration keyword name namePos constant) []⟩ := by
        cases constant <;> rfl
      refine ⟨⟨n :: finished, .ready⟩, ?_, Or.inl rfl⟩
      rw [Statement.yield, run_cons_of_ok hstep, run_cons_of_ok hname,
        run_cons_of_ok hequals, run_append_of_ok hrun, run_cons_of_ok hsemi, run_nil]
  | expression e semicolon =>
      obtain ⟨finished, frames, node, hrun, hopen⟩ := passes_expression hb e
      cases semicolon with
      | none => exact ⟨_, hrun, Or.inr ⟨frames, node, rfl, hopen⟩⟩
      | some pos =>
          obtain ⟨n, hsemi⟩ := step_semicolon finished .statement node pos hopen
          refine ⟨⟨n :: finished, .ready⟩, ?_, Or.inl rfl⟩
          rw [Statement.yield, run_append_of_ok hrun, run_cons_of_ok hsemi, run_nil]

/-- Every program leads from a boundary to a boundary. -/
theorem passes_program
    {b : Builder}
    (hb : AtBoundary b)
    (p : Program) :
    ∃ b', b.run p.yield = .ok b' ∧ AtBoundary b' := by
  induction p generalizing b with
  | nil => exact ⟨b, rfl, hb⟩
  | cons s p ih =>
      obtain ⟨b₁, hrun₁, hb₁⟩ := passes_statement hb s
      obtain ⟨b₂, hrun₂, hb₂⟩ := ih hb₁
      refine ⟨b₂, ?_, hb₂⟩
      rw [Program.yield_cons, run_append_of_ok hrun₁, hrun₂]

/-- A text may end at a boundary. -/
theorem finish_of_atBoundary
    {b : Builder}
    (hb : AtBoundary b)
    (pos : Pos) :
    ∃ body, b.finish pos = .ok body := by
  obtain ⟨finished, stage⟩ := b
  rcases hb with hstage | ⟨frames, node, hstage, hopen⟩
  · cases hstage
    exact ⟨finished.reverse, rfl⟩
  · cases hstage
    obtain ⟨whole, hclose⟩ := close_zero_of_no_parens hopen node
    exact ⟨(whole :: finished).reverse, by simp [finish, hclose]⟩

/-- The tokens of every derivation make a program. -/
theorem exists_toProgram_of_yield
    {stream : TokenStream} {p : Program}
    (h : p.yield = stream.tokens) :
    ∃ program, stream.toProgram = .ok program := by
  obtain ⟨b, hrun, hb⟩ := passes_program atBoundary_start p
  obtain ⟨body, hbody⟩ := finish_of_atBoundary hb stream.finish
  rw [h] at hrun
  exact ⟨_, (stream.toProgram_eq_ok_iff _).mpr ⟨b, body, hrun, hbody, rfl⟩⟩

end Grammar
end LetLang
