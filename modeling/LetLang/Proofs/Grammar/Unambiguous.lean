import LetLang.Proofs.Grammar.Derivation

/-!
# Derivations are determined by their tokens

Expressions are unambiguous: if two derivations from one nonterminal begin the same
sequence of tokens, and neither of them is followed by an operator that could still go on
with it, then they are the same derivation and stop at the same place. Programs are
ambiguous, since a minus sign after an expression may go on with it or begin the next
statement. They are unambiguous among settled derivations.
-/

namespace LetLang
namespace Grammar

/-- The tokens begin with an operator that can go on with an expression of level `l`. -/
@[simp] def Continues (l : Nat) : List Token → Prop
  | ⟨.operator (.binary op), _⟩ :: _ => l ≤ op.level
  | ⟨.operator .assign, _⟩ :: _ => l = 0
  | _ => False

/-- The level to which a nonterminal belongs. -/
@[simp] def Nonterminal.levelOf : Nonterminal → Nat
  | level l => l
  | rest l => l

theorem not_continues_of_le
    {l k : Nat} {ts : List Token}
    (hlk : l ≤ k)
    (hts : ¬ Continues l ts) :
    ¬ Continues k ts := by
  intro hk
  apply hts
  unfold Continues at hk ⊢
  split at hk
  · omega
  · omega
  · exact hk.elim

namespace Derivation

/-- What follows the first operand of a chain does not go on with that operand. -/
theorem not_continues_rest
    {l : Nat} (d : Derivation (.rest l)) {ts : List Token}
    (hts : ¬ Continues l ts) :
    ¬ Continues (l + 1) (d.yield ++ ts) := by
  cases d with
  | stop =>
      simpa [yield] using not_continues_of_le (Nat.le_succ l) hts
  | link op hop pos operand rest =>
      simp only [yield, List.cons_append, Continues]
      omega

/-- No operator begins a primary expression. -/
theorem primary_yield_append_ne
    (e : Derivation (.level 8)) (op : Operator) (pos : Pos) (ts ts' : List Token) :
    e.yield ++ ts ≠ ⟨.operator op, pos⟩ :: ts' := by
  cases e with
  | chain loosest tightest => omega
  | identifier pos name => simp [yield]
  | number pos digits => simp [yield]
  | string pos text => simp [yield]
  | paren opening inner closing => simp [yield]

/-- No other derivation begins the same tokens, where nothing goes on with either
of them. -/
def Determined {N : Nonterminal} (d : Derivation N) : Prop :=
  ∀ (d' : Derivation N) (ts ts' : List Token),
    d.yield ++ ts = d'.yield ++ ts' →
    ¬ Continues N.levelOf ts →
    ¬ Continues N.levelOf ts' →
    d = d' ∧ ts = ts'

theorem Determined.plain
    {e : Derivation (.level 1)}
    (h : e.Determined) :
    (plain e).Determined := by
  intro d' ts ts' heq hts hts'
  cases d' with
  | plain e' =>
      obtain ⟨rfl, rfl⟩ :=
        h e' ts ts' heq (not_continues_of_le (Nat.zero_le 1) hts)
          (not_continues_of_le (Nat.zero_le 1) hts')
      exact ⟨rfl, rfl⟩
  | assignment target' pos' value' =>
      simp only [yield, List.append_assoc, List.cons_append] at heq
      obtain ⟨_, rfl⟩ :=
        h target' _ _ heq (not_continues_of_le (Nat.zero_le 1) hts)
          (by simp [Continues, Nonterminal.levelOf])
      exact absurd (by simp [Continues, Nonterminal.levelOf]) hts
  | chain loosest => omega

theorem Determined.assignment
    {target : Derivation (.level 1)} {value : Derivation (.level 0)} (pos : Pos)
    (htarget : target.Determined)
    (hvalue : value.Determined) :
    (assignment target pos value).Determined := by
  intro d' ts ts' heq hts hts'
  simp only [yield, List.append_assoc, List.cons_append] at heq
  cases d' with
  | plain e' =>
      obtain ⟨_, rfl⟩ :=
        htarget e' _ _ heq (by simp [Continues, Nonterminal.levelOf])
          (not_continues_of_le (Nat.zero_le 1) hts')
      exact absurd (by simp [Continues, Nonterminal.levelOf]) hts'
  | assignment target' pos' value' =>
      simp only [yield, List.append_assoc, List.cons_append] at heq
      obtain ⟨rfl, htail⟩ :=
        htarget target' _ _ heq (by simp [Continues, Nonterminal.levelOf])
          (by simp [Continues, Nonterminal.levelOf])
      simp only [List.cons.injEq, Token.mk.injEq, true_and] at htail
      obtain ⟨rfl, hrest⟩ := htail
      obtain ⟨rfl, rfl⟩ := hvalue value' ts ts' hrest hts hts'
      exact ⟨rfl, rfl⟩
  | chain loosest => omega

/-- An operand and the repeated part after it are found one after the other. -/
theorem Determined.operand_and_rest
    {l : Nat} {first first' : Derivation (.level (l + 1))}
    {rest rest' : Derivation (.rest l)} {ts ts' : List Token}
    (hfirst : first.Determined)
    (hrest : rest.Determined)
    (heq : first.yield ++ (rest.yield ++ ts) = first'.yield ++ (rest'.yield ++ ts'))
    (hts : ¬ Continues l ts)
    (hts' : ¬ Continues l ts') :
    first = first' ∧ rest = rest' ∧ ts = ts' := by
  obtain ⟨rfl, htail⟩ :=
    hfirst first' _ _ heq (not_continues_rest rest hts) (not_continues_rest rest' hts')
  obtain ⟨rfl, rfl⟩ := hrest rest' ts ts' htail hts hts'
  exact ⟨rfl, rfl, rfl⟩

theorem Determined.chain
    {l : Nat} (loosest : 1 ≤ l) (tightest : l ≤ 6)
    {first : Derivation (.level (l + 1))} {rest : Derivation (.rest l)}
    (hfirst : first.Determined)
    (hrest : rest.Determined) :
    (chain loosest tightest first rest).Determined := by
  intro d' ts ts' heq hts hts'
  cases d' with
  | chain loosest' tightest' first' rest' =>
      simp only [yield, List.append_assoc] at heq
      obtain ⟨rfl, rfl, rfl⟩ := operand_and_rest hfirst hrest heq hts hts'
      exact ⟨rfl, rfl⟩
  | _ => omega

theorem determined_stop
    {l : Nat} :
    (stop : Derivation (.rest l)).Determined := by
  intro d' ts ts' heq hts hts'
  cases d' with
  | stop => exact ⟨rfl, by simpa [yield] using heq⟩
  | link op' hop' pos' operand' rest' =>
      simp only [yield, List.nil_append, List.cons_append] at heq
      subst heq
      exact absurd (by simp [Continues, Nonterminal.levelOf, hop']) hts

theorem Determined.link
    {l : Nat} (op : BinaryOp) (hop : op.level = l) (pos : Pos)
    {operand : Derivation (.level (l + 1))} {rest : Derivation (.rest l)}
    (hoperand : operand.Determined)
    (hrest : rest.Determined) :
    (link op hop pos operand rest).Determined := by
  intro d' ts ts' heq hts hts'
  cases d' with
  | stop =>
      simp only [yield, List.nil_append, List.cons_append] at heq
      subst heq
      exact absurd (by simp [Continues, Nonterminal.levelOf, hop]) hts'
  | link op' hop' pos' operand' rest' =>
      simp only [yield, List.cons_append, List.append_assoc,
        List.cons.injEq, Token.mk.injEq, Lexeme.operator.injEq,
        Operator.binary.injEq] at heq
      obtain ⟨⟨rfl, rfl⟩, htail⟩ := heq
      obtain ⟨rfl, rfl, rfl⟩ := operand_and_rest hoperand hrest htail hts hts'
      exact ⟨rfl, rfl⟩

theorem Determined.sign
    {operand : Derivation (.level 7)} (s : Sign) (pos : Pos)
    (h : operand.Determined) :
    (sign s pos operand).Determined := by
  intro d' ts ts' heq hts hts'
  cases d' with
  | chain loosest' tightest' => omega
  | sign s' pos' operand' =>
      simp only [yield, List.cons_append, List.cons.injEq, Token.mk.injEq,
        Lexeme.operator.injEq] at heq
      obtain ⟨⟨hs, rfl⟩, htail⟩ := heq
      have hsign : s = s' := by
        cases s <;> cases s' <;> simp_all [Sign.operator]
      obtain ⟨rfl, rfl⟩ := h operand' ts ts' htail hts hts'
      exact ⟨by rw [hsign], rfl⟩
  | primary e' => exact absurd heq.symm (primary_yield_append_ne e' _ _ _ _)

theorem Determined.primary
    {e : Derivation (.level 8)}
    (h : e.Determined) :
    (primary e).Determined := by
  intro d' ts ts' heq hts hts'
  cases d' with
  | chain loosest' tightest' => omega
  | sign s' pos' operand' => exact absurd heq (primary_yield_append_ne e _ _ _ _)
  | primary e' =>
      obtain ⟨rfl, rfl⟩ :=
        h e' ts ts' heq (not_continues_of_le (Nat.le_succ 7) hts)
          (not_continues_of_le (Nat.le_succ 7) hts')
      exact ⟨rfl, rfl⟩

theorem Determined.paren
    {inner : Derivation (.level 0)} (opening closing : Pos)
    (h : inner.Determined) :
    (paren opening inner closing).Determined := by
  intro d' ts ts' heq hts hts'
  cases d' with
  | chain loosest' tightest' => omega
  | identifier pos' name' => simp [yield] at heq
  | number pos' digits' => simp [yield] at heq
  | string pos' text' => simp [yield] at heq
  | paren opening' inner' closing' =>
      simp only [yield, List.cons_append, List.append_assoc, List.cons.injEq,
        Token.mk.injEq, true_and] at heq
      obtain ⟨rfl, htail⟩ := heq
      obtain ⟨rfl, hrest⟩ := h inner' _ _ htail (by simp [Continues]) (by simp [Continues])
      simp only [List.nil_append, List.cons.injEq, Token.mk.injEq, true_and] at hrest
      obtain ⟨rfl, rfl⟩ := hrest
      exact ⟨rfl, rfl⟩

/-- Every derivation is determined by its tokens. -/
theorem determined
    {N : Nonterminal} (d : Derivation N) :
    d.Determined := by
  induction d with
  | plain e ih => exact ih.plain
  | assignment target pos value ihTarget ihValue => exact ihTarget.assignment pos ihValue
  | chain loosest tightest first rest ihFirst ihRest =>
      exact ihFirst.chain loosest tightest ihRest
  | stop => exact determined_stop
  | link op hop pos operand rest ihOperand ihRest => exact ihOperand.link op hop pos ihRest
  | sign s pos operand ih => exact ih.sign s pos
  | primary e ih => exact ih.primary
  | identifier pos name =>
      intro d' ts ts' heq hts hts'
      cases d' <;> simp_all [yield]
      omega
  | number pos digits =>
      intro d' ts ts' heq hts hts'
      cases d' <;> simp_all [yield]
      omega
  | string pos text =>
      intro d' ts ts' heq hts hts'
      cases d' <;> simp_all [yield]
      omega
  | paren opening inner closing ih => exact ih.paren opening closing

end Derivation

/-- The lexemes that begin an expression. -/
def beginsOperand : Lexeme → Bool
  | .identifier _ | .number _ | .string _ | .openParen => true
  | .operator .not | .operator (.binary (.arith .sub)) => true
  | _ => false

/-- The lexemes that begin a statement. -/
def beginsStatement : Lexeme → Bool
  | .declare _ => true
  | other => beginsOperand other

theorem beginsStatement_of_beginsOperand
    {x : Lexeme}
    (hx : beginsOperand x = true) :
    beginsStatement x = true := by
  cases x <;> simp_all [beginsStatement, beginsOperand]

theorem Derivation.exists_yield_eq_cons
    {l : Nat} (d : Derivation (.level l)) :
    ∃ t ts, d.yield = t :: ts ∧ beginsOperand t.lexeme = true := by
  generalize hN : Nonterminal.level l = N at d
  induction d generalizing l with
  | plain e ih =>
      exact ih rfl
  | assignment target pos value ihTarget ihValue =>
      obtain ⟨t, ts, hyield, ht⟩ := ihTarget rfl
      exact ⟨t, ts ++ ⟨.operator .assign, pos⟩ :: value.yield, by simp [yield, hyield], ht⟩
  | chain loosest tightest first rest ihFirst ihRest =>
      obtain ⟨t, ts, hyield, ht⟩ := ihFirst rfl
      exact ⟨t, ts ++ rest.yield, by simp [yield, hyield], ht⟩
  | stop =>
      cases hN
  | link op hop pos operand rest ihOperand ihRest =>
      cases hN
  | sign s pos operand ih =>
      refine ⟨_, _, rfl, ?_⟩
      cases s <;> rfl
  | primary e ih =>
      exact ih rfl
  | identifier pos name =>
      exact ⟨_, _, rfl, rfl⟩
  | number pos digits =>
      exact ⟨_, _, rfl, rfl⟩
  | string pos text =>
      exact ⟨_, _, rfl, rfl⟩
  | paren opening inner closing ih =>
      exact ⟨_, _, rfl, rfl⟩

theorem Statement.exists_yield_eq_cons
    (s : Statement) :
    ∃ t ts, s.yield = t :: ts ∧ beginsStatement t.lexeme = true := by
  cases s with
  | unset keyword name namePos semicolon =>
      exact ⟨_, _, rfl, rfl⟩
  | set constant keyword name namePos equals value semicolon =>
      exact ⟨_, _, rfl, rfl⟩
  | expression e semicolon =>
      obtain ⟨t, ts, hyield, ht⟩ := e.exists_yield_eq_cons
      cases semicolon with
      | none => exact ⟨t, ts, hyield, beginsStatement_of_beginsOperand ht⟩
      | some pos =>
          exact ⟨t, ts ++ [⟨.semicolon, pos⟩],
            by simp [yield, hyield], beginsStatement_of_beginsOperand ht⟩

/-- What follows a statement does not belong to it. -/
def Statement.EndsBefore (s : Statement) (ts : List Token) : Prop :=
  s.isBare = true → ¬ Continues 0 ts ∧ ∀ t ∈ ts.head?, t.lexeme ≠ .semicolon

/-- Of the tokens that begin a statement, only a minus sign goes on with an expression. -/
theorem endsBefore_of_begins
    (s : Statement) {t : Token} {ts : List Token}
    (ht : beginsStatement t.lexeme = true)
    (hminus : s.isBare = true → isMinus t = false) :
    s.EndsBefore (t :: ts) := by
  intro hbare
  have hm := hminus hbare
  obtain ⟨lexeme, pos⟩ := t
  constructor
  · intro hc
    unfold Continues at hc
    split at hc
    · rename_i op _ _ heq
      simp only [List.cons.injEq, Token.mk.injEq] at heq
      obtain ⟨⟨rfl, _⟩, _⟩ := heq
      rcases op with op | op <;> cases op <;>
        simp_all [beginsStatement, beginsOperand, isMinus, Sign.operator]
    · rename_i heq
      simp only [List.cons.injEq, Token.mk.injEq] at heq
      obtain ⟨⟨rfl, _⟩, _⟩ := heq
      simp [beginsStatement, beginsOperand] at ht
    · exact hc
  · intro t' ht' hsemi
    simp only [List.head?_cons, Option.mem_def, Option.some.injEq] at ht'
    subst ht'
    simp only at hsemi
    subst hsemi
    simp [beginsStatement, beginsOperand] at ht

theorem endsBefore_nil
    (s : Statement) :
    s.EndsBefore [] := by
  intro _
  exact ⟨fun hc => hc, by simp⟩

namespace Statement

/-- An expression begins with no keyword of a declaration. -/
theorem yield_append_ne_declare
    (e : Derivation (.level 0)) (constant : Bool) (pos : Pos) (ts ts' : List Token) :
    e.yield ++ ts ≠ ⟨.declare constant, pos⟩ :: ts' := by
  intro heq
  obtain ⟨t, us, hyield, ht⟩ := e.exists_yield_eq_cons
  rw [hyield, List.cons_append, List.cons.injEq] at heq
  rw [heq.1] at ht
  simp [beginsOperand] at ht

/-- The tokens that close an expression statement. -/
def closing : Option Pos → List Token
  | none => []
  | some pos => [⟨.semicolon, pos⟩]

theorem yield_expression
    (e : Derivation (.level 0)) (semicolon : Option Pos) :
    (expression e semicolon).yield = e.yield ++ closing semicolon := by
  cases semicolon <;> simp [yield, closing]

/-- Nothing that may follow an expression statement goes on with its expression. -/
theorem not_continues_closing
    {e : Derivation (.level 0)} {semicolon : Option Pos} {ts : List Token}
    (hend : (expression e semicolon).EndsBefore ts) :
    ¬ Continues 0 (closing semicolon ++ ts) := by
  cases semicolon with
  | none => exact (hend rfl).1
  | some pos => simp [closing, Continues]

/-- Two statements that begin the same tokens, and to which nothing more belongs,
are equal. -/
theorem eq_of_yield_append
    {s s' : Statement} {ts ts' : List Token}
    (heq : s.yield ++ ts = s'.yield ++ ts')
    (hend : s.EndsBefore ts)
    (hend' : s'.EndsBefore ts') :
    s = s' ∧ ts = ts' := by
  cases s with
  | unset keyword name namePos semicolon =>
      cases s' with
      | unset keyword' name' namePos' semicolon' =>
          simp only [yield, List.cons_append, List.nil_append, List.cons.injEq,
            Token.mk.injEq, true_and, Lexeme.identifier.injEq] at heq
          obtain ⟨rfl, ⟨rfl, rfl⟩, rfl, rfl⟩ := heq
          exact ⟨rfl, rfl⟩
      | set constant' keyword' name' namePos' equals' value' semicolon' =>
          simp [yield] at heq
      | expression e' semicolon' =>
          rw [yield_expression, List.append_assoc] at heq
          exact absurd heq.symm (yield_append_ne_declare e' _ _ _ _)
  | set constant keyword name namePos equals value semicolon =>
      cases s' with
      | unset keyword' name' namePos' semicolon' =>
          simp [yield] at heq
      | set constant' keyword' name' namePos' equals' value' semicolon' =>
          simp only [yield, List.cons_append, List.append_assoc, List.cons.injEq,
            Token.mk.injEq, true_and, Lexeme.declare.injEq, Lexeme.identifier.injEq] at heq
          obtain ⟨⟨rfl, rfl⟩, ⟨rfl, rfl⟩, rfl, htail⟩ := heq
          obtain ⟨rfl, hrest⟩ :=
            value.determined value' _ _ htail (by simp [Continues]) (by simp [Continues])
          simp only [List.nil_append, List.cons.injEq, Token.mk.injEq, true_and] at hrest
          obtain ⟨rfl, rfl⟩ := hrest
          exact ⟨rfl, rfl⟩
      | expression e' semicolon' =>
          rw [yield_expression, List.append_assoc] at heq
          exact absurd heq.symm (yield_append_ne_declare e' _ _ _ _)
  | expression e semicolon =>
      cases s' with
      | unset keyword' name' namePos' semicolon' =>
          rw [yield_expression, List.append_assoc] at heq
          exact absurd heq (yield_append_ne_declare e _ _ _ _)
      | set constant' keyword' name' namePos' equals' value' semicolon' =>
          rw [yield_expression, List.append_assoc] at heq
          exact absurd heq (yield_append_ne_declare e _ _ _ _)
      | expression e' semicolon' =>
          rw [yield_expression, yield_expression, List.append_assoc,
            List.append_assoc] at heq
          obtain ⟨rfl, htail⟩ :=
            e.determined e' _ _ heq (not_continues_closing hend)
              (not_continues_closing hend')
          cases semicolon with
          | none =>
              cases semicolon' with
              | none => exact ⟨rfl, htail⟩
              | some pos' =>
                  have hfirst :=
                    (hend rfl).2 ⟨.semicolon, pos'⟩
                      (by simp [closing] at htail; simp [htail])
                  exact absurd rfl hfirst
          | some pos =>
              cases semicolon' with
              | none =>
                  have hfirst :=
                    (hend' rfl).2 ⟨.semicolon, pos⟩
                      (by simp [closing] at htail; simp [← htail])
                  exact absurd rfl hfirst
              | some pos' =>
                  simp only [closing, List.cons_append, List.nil_append,
                    List.cons.injEq, Token.mk.injEq, true_and] at htail
                  obtain ⟨rfl, rfl⟩ := htail
                  exact ⟨rfl, rfl⟩

end Statement

namespace Program

@[simp] theorem yield_nil :
    yield [] = [] := by
  rfl

@[simp] theorem yield_cons
    (s : Statement) (p : Program) :
    yield (s :: p) = s.yield ++ yield p := by
  simp [yield]

@[simp] theorem yield_append
    (p q : Program) :
    yield (p ++ q) = yield p ++ yield q := by
  simp [yield]

/-- In a settled program every statement ends before the others begin. -/
theorem Settled.endsBefore
    {s : Statement} {p : Program}
    (h : Settled (s :: p)) :
    s.EndsBefore (yield p) := by
  cases p with
  | nil => exact endsBefore_nil s
  | cons next rest =>
      obtain ⟨t, ts, hyield, ht⟩ := next.exists_yield_eq_cons
      have hnext : s.isBare = true → NoMinus next.yield := (List.isChain_cons_cons.mp h).1
      rw [yield_cons, hyield, List.cons_append]
      apply endsBefore_of_begins s ht
      intro hbare
      exact hnext hbare t (by simp [hyield])

/-- A sequence of tokens has at most one settled derivation. -/
theorem eq_of_yield_eq
    {p p' : Program}
    (hp : p.Settled)
    (hp' : p'.Settled)
    (heq : p.yield = p'.yield) :
    p = p' := by
  induction p generalizing p' with
  | nil =>
      cases p' with
      | nil => rfl
      | cons s' rest' =>
          obtain ⟨t, ts, hyield, _⟩ := s'.exists_yield_eq_cons
          simp [hyield] at heq
  | cons s rest ih =>
      cases p' with
      | nil =>
          obtain ⟨t, ts, hyield, _⟩ := s.exists_yield_eq_cons
          simp [hyield] at heq
      | cons s' rest' =>
          rw [yield_cons, yield_cons] at heq
          obtain ⟨rfl, hrest⟩ :=
            Statement.eq_of_yield_append heq hp.endsBefore hp'.endsBefore
          rw [ih hp.of_cons hp'.of_cons hrest]

end Program
end Grammar
end LetLang
