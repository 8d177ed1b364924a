import LetLang.Proofs.Grammar.Reconstruction
import LetLang.Proofs.Token.Spelling

/-!
# Well-formed trees

The trees that programs can have: the names are words but no keywords, the numbers are
those of numerals, the strings have no quotes, the operators belong to their families, and
a constant has a value. Every tree that is read from a text is well formed.
-/

namespace LetLang

/-- A word that is no keyword. -/
def Lexeme.IsName (name : String) : Prop :=
  IsWord name.toList ∧ name.toList ∉ keywords

namespace Node

/-- A well-formed expression. Any expression can be the target of an assignment. -/
def IsExpression : Node → Prop
  | identifier _ name => Lexeme.IsName name
  | number _ x => ∃ digits, Lexeme.IsNumeral digits ∧ x = Decimal.read digits
  | string _ text => '"' ∉ text.toList
  | operation family _ symbol _ left right =>
      (∃ op : BinaryOp, family = op.family ∧ symbol = op.symbol) ∧
        IsExpression left ∧ IsExpression right
  | unary _ symbol operand =>
      (∃ s : Grammar.Sign, symbol = s.operator.symbol) ∧ IsExpression operand
  | assignment _ target value => IsExpression target ∧ IsExpression value
  | _ => False

/-- A well-formed expression or declaration. Only a variable can be declared without
a value. -/
def IsStatement : Node → Prop
  | declaration _ name _ constant none => Lexeme.IsName name ∧ constant = false
  | declaration _ name _ _ (some value) => Lexeme.IsName name ∧ IsExpression value
  | n => IsExpression n

/-- A program of well-formed statements. -/
def IsProgram : Node → Prop
  | program _ body => ∀ statement ∈ body, IsStatement statement
  | _ => False

theorem IsExpression.isStatement
    {n : Node}
    (h : n.IsExpression) :
    n.IsStatement := by
  cases n with
  | declaration => cases h
  | _ => exact h

end Node

namespace Grammar

open Node

/-- The tokens are written as their lexemes are spelled. -/
def Legible (ts : List Token) : Prop :=
  ∀ t ∈ ts, ∃ w, t.lexeme.Spelled w

theorem Legible.left
    {ts us : List Token}
    (h : Legible (ts ++ us)) :
    Legible ts := by
  intro t ht
  exact h t (List.mem_append_left us ht)

theorem Legible.right
    {ts us : List Token}
    (h : Legible (ts ++ us)) :
    Legible us := by
  intro t ht
  exact h t (List.mem_append_right ts ht)

theorem Legible.tail
    {t : Token} {ts : List Token}
    (h : Legible (t :: ts)) :
    Legible ts := by
  intro u hu
  exact h u (List.mem_cons_of_mem t hu)

/-- What a derivation of legible tokens means is well formed. -/
def WellFormedMeaning : (N : Nonterminal) → N.Meaning → Prop
  | .level _, n => IsExpression n
  | .rest _, f => ∀ left : Node, IsExpression left → IsExpression (f left)

theorem Derivation.wellFormed_meaning :
    {N : Nonterminal} → (d : Derivation N) → Legible d.yield →
      WellFormedMeaning N d.meaning
  | _, plain e, h => wellFormed_meaning e h
  | _, assignment target pos value, h => by
      have htarget := wellFormed_meaning target h.left
      have hvalue := wellFormed_meaning value h.right.tail
      exact ⟨htarget, hvalue⟩
  | _, chain loosest tightest first rest, h => by
      have hfirst := wellFormed_meaning first h.left
      have hrest := wellFormed_meaning rest h.right
      exact hrest _ hfirst
  | _, stop, h => by
      intro left hleft
      exact hleft
  | _, link op hop pos operand rest, h => by
      intro left hleft
      have hoperand := wellFormed_meaning operand h.tail.left
      have hrest := wellFormed_meaning rest h.tail.right
      exact hrest _ ⟨⟨op, rfl, rfl⟩, hleft, hoperand⟩
  | _, sign s pos operand, h => by
      have hoperand := wellFormed_meaning operand h.tail
      exact ⟨⟨s, rfl⟩, hoperand⟩
  | _, primary e, h => wellFormed_meaning e h
  | _, identifier pos name, h => by
      obtain ⟨w, rfl, hword, hkeyword⟩ := h _ List.mem_cons_self
      exact ⟨hword, hkeyword⟩
  | _, number pos digits, h => by
      obtain ⟨w, rfl, hnumeral⟩ := h _ List.mem_cons_self
      exact ⟨digits.toList, hnumeral, rfl⟩
  | _, string pos text, h => by
      obtain ⟨w, rfl, hquote⟩ := h _ List.mem_cons_self
      exact hquote
  | _, paren opening inner closing, h => wellFormed_meaning inner h.tail.left

theorem isExpression_node
    {l : Nat} (d : Derivation (.level l))
    (h : Legible d.yield) :
    d.node.IsExpression := by
  exact d.wellFormed_meaning h

theorem isName_of_legible
    {name : String} {pos : Pos} {ts : List Token}
    (h : Legible (⟨.identifier name, pos⟩ :: ts)) :
    Lexeme.IsName name := by
  obtain ⟨w, rfl, hword, hkeyword⟩ := h _ List.mem_cons_self
  exact ⟨hword, hkeyword⟩

theorem isStatement_node
    (s : Statement)
    (h : Legible s.yield) :
    s.node.IsStatement := by
  cases s with
  | unset keyword name namePos semicolon => exact ⟨isName_of_legible h.tail, rfl⟩
  | set constant keyword name namePos equals value semicolon =>
      have hvalue := isExpression_node value h.tail.tail.tail.left
      exact ⟨isName_of_legible h.tail, hvalue⟩
  | expression e semicolon =>
      apply IsExpression.isStatement
      cases semicolon with
      | none => exact isExpression_node e h
      | some pos => exact isExpression_node e h.left

theorem isStatement_of_mem_nodes
    {p : Program} {n : Node}
    (h : Legible p.yield)
    (hn : n ∈ p.nodes) :
    n.IsStatement := by
  obtain ⟨s, hs, rfl⟩ := List.mem_map.mp hn
  refine isStatement_node s ?_
  intro t ht
  exact h t (List.mem_flatMap.mpr ⟨s, hs, ht⟩)

end Grammar

/-- Every tree that is read from a text is well formed. -/
theorem isProgram_of_parse
    {source : String} {program : Node}
    (h : parse source = .ok program) :
    program.IsProgram := by
  obtain ⟨stream, htokenize, hprogram⟩ := exists_of_parse_eq_ok h
  obtain ⟨p, _, hyield, rfl⟩ := Grammar.exists_settled_of_toProgram hprogram
  have hlegible : Grammar.Legible p.yield := by
    intro t ht
    rw [hyield] at ht
    exact TokenStream.spelled_of_mem_read htokenize ht
  intro statement hmem
  exact Grammar.isStatement_of_mem_nodes hlegible hmem

end LetLang
