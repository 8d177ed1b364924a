import LetLang.Proofs.Evaluation.Failure
import LetLang.Proofs.Evaluation.Placement
import LetLang.Proofs.Token.Origin
import LetLang.Proofs.Tree.Origin

/-!
# Faults point at their causes

Whatever goes wrong with a text, the fault is found at a place of the text. A lexical fault
quotes the text from there on. Every other fault is found at a token, or at the end of the
text if the program is unfinished, and quotes this token, unless it is about a tree that
cannot be assigned to. So the positions that tokens are given survive building and
evaluation.
-/

namespace LetLang

/--
The fault is found at what it is about: a token or the end that it refuses, a name or
operator that it quotes, or a tree that cannot be assigned to.
-/
def Fault.PointsInto (stream : TokenStream) (fault : Fault) : Prop :=
  match fault.cause.kind with
  | .grammar =>
      (∃ t ∈ stream.tokens, t.lexeme.text = fault.cause.snippet ∧ t.pos = fault.pos) ∨
        Token.endText = fault.cause.snippet ∧ stream.finish = fault.pos
  | .unknown | .duplicate | .constant | .reserved =>
      ⟨.identifier fault.cause.snippet, fault.pos⟩ ∈ stream.tokens
  | .operand | .zeroDivision =>
      ∃ op : Operator, op.symbol = fault.cause.snippet ∧
        ⟨.operator op, fault.pos⟩ ∈ stream.tokens
  | .target => ∃ t ∈ stream.tokens, t.pos = fault.pos
  | .lexical | .language | .symbol | .internal => False

namespace Fault

variable {stream : TokenStream} {fault : Fault}

theorem pointsInto_operator
    {op : Operator} {pos : Pos} {cause : Cause}
    (hmem : ⟨.operator op, pos⟩ ∈ stream.tokens)
    (hkind : cause.kind = .operand ∨ cause.kind = .zeroDivision)
    (hsnippet : op.symbol = cause.snippet) :
    PointsInto stream ⟨cause, pos⟩ := by
  rcases hkind with hkind | hkind
  · simp only [PointsInto, hkind]
    exact ⟨op, hsnippet, hmem⟩
  · simp only [PointsInto, hkind]
    exact ⟨op, hsnippet, hmem⟩

theorem Refuses.pointsInto
    {t : Token}
    (h : fault.Refuses t)
    (ht : t ∈ stream.tokens) :
    fault.PointsInto stream := by
  simp only [PointsInto, h.kind_eq]
  exact Or.inl ⟨t, ht, h.snippet_eq.symm, h.pos_eq.symm⟩

theorem RefusesEnd.pointsInto
    (h : fault.RefusesEnd stream.finish) :
    fault.PointsInto stream := by
  simp only [PointsInto, h.kind_eq]
  exact Or.inr ⟨h.snippet_eq.symm, h.pos_eq.symm⟩

/-- The fault is found at a token or at the end. -/
theorem PointsInto.exists_pos
    (h : fault.PointsInto stream) :
    (∃ t ∈ stream.tokens, t.pos = fault.pos) ∨ stream.finish = fault.pos := by
  unfold PointsInto at h
  split at h
  · rcases h with ⟨t, ht, _, hpos⟩ | ⟨_, hpos⟩
    · exact Or.inl ⟨t, ht, hpos⟩
    · exact Or.inr hpos
  case h_6 | h_7 =>
    obtain ⟨op, _, hmem⟩ := h
    exact Or.inl ⟨_, hmem, rfl⟩
  case h_8 => exact Or.inl h
  case h_2 | h_3 | h_4 | h_5 => exact Or.inl ⟨_, h, rfl⟩
  all_goals exact h.elim

end Fault

namespace Value

theorem snippet_of_unary_error
    {symbol : String} {v : Value} {cause : Cause}
    (h : unary symbol v = .error cause) :
    cause.kind = .operand ∧ symbol = cause.snippet := by
  unfold unary at h
  split at h
  · cases h
  · cases h
  · cases h
    exact ⟨rfl, rfl⟩

/-- A failed operation quotes its symbol, also the division by zero. -/
theorem snippet_of_arithmetic_error
    {op : ArithOp} {l r : Value} {cause : Cause}
    (h : arithmetic op.symbol l r = .error cause) :
    (cause.kind = .operand ∨ cause.kind = .zeroDivision) ∧ op.symbol = cause.snippet := by
  unfold arithmetic at h
  split at h
  · split at h
    · cases h
    · cases h
      exact ⟨Or.inl rfl, rfl⟩
  · split at h
    · rw [numeric, ArithOp.ofSymbol?_symbol] at h
      simp only at h
      split at h
      · rename_i hzero
        cases h
        rw [hzero.1]
        exact ⟨Or.inr rfl, rfl⟩
      · cases h
    · cases h

theorem snippet_of_logical_error
    {op : LogicOp} {l r : Value} {cause : Cause}
    (h : logical op.symbol l r = .error cause) :
    cause.kind = .operand ∧ op.symbol = cause.snippet := by
  unfold logical at h
  split at h
  · split at h
    · cases h
    · split at h
      · cases h
      · cases h
        exact ⟨rfl, rfl⟩
  · split at h
    · rw [LogicOp.ofSymbol?_symbol] at h
      cases h
    · cases h

end Value

open Evaluation Fault

namespace Node

variable {stream : TokenStream}

/-- Every fault of a tree that is made of tokens points at them. -/
theorem pointsInto_of_evaluate :
    (n : Node) → n.IsMadeOf stream.tokens → FailsOnly (PointsInto stream) n.evaluate
  | .identifier pos name, h => by
      rw [evaluate]
      exact failsOnly_lookup h
  | .number pos x, _ => by
      rw [evaluate]
      exact failsOnly_pure _
  | .string pos text, _ => by
      rw [evaluate]
      exact failsOnly_pure _
  | .operation family pos symbol symbolPos left right, h => by
      obtain ⟨⟨op, rfl, rfl, hop⟩, _, hleft, hright⟩ := h
      have hl := pointsInto_of_evaluate left hleft
      have hr := pointsInto_of_evaluate right hright
      cases op with
      | arith op =>
          simp only [BinaryOp.family, BinaryOp.symbol, evaluate]
          refine hl.bind fun l => hr.bind fun r => failsOnly_located ?_
          intro cause herror
          obtain ⟨hkind, hsnippet⟩ := Value.snippet_of_arithmetic_error herror
          exact pointsInto_operator hop hkind hsnippet
      | logic op =>
          simp only [BinaryOp.family, BinaryOp.symbol, evaluate]
          refine hl.bind fun l => hr.bind fun r => failsOnly_located ?_
          intro cause herror
          obtain ⟨hkind, hsnippet⟩ := Value.snippet_of_logical_error herror
          exact pointsInto_operator hop (Or.inl hkind) hsnippet
  | .unary pos symbol operand, h => by
      obtain ⟨⟨s, rfl, hs⟩, hoperand⟩ := h
      rw [evaluate]
      refine (pointsInto_of_evaluate operand hoperand).bind fun v => failsOnly_located ?_
      intro cause herror
      obtain ⟨hkind, hsnippet⟩ := Value.snippet_of_unary_error herror
      exact pointsInto_operator hs (Or.inl hkind) hsnippet
  | .assignment pos target value, h => by
      obtain ⟨_, htarget, hvalue⟩ := h
      have hv := pointsInto_of_evaluate value hvalue
      rcases target.identifier_or_not with ⟨p, name, rfl⟩ | hother
      · rw [evaluate]
        split
        · exact failsOnly_fail htarget
        · exact hv.bind fun v => failsOnly_assign htarget htarget
      · rw [evaluate_assignment_of_not_identifier pos value hother]
        exact failsOnly_fail (exists_token_at_pos target htarget)
  | .declaration pos name namePos constant none, h => by
      rw [evaluate]
      exact failsOnly_declare h.2
  | .declaration pos name namePos constant (some value), h => by
      rw [evaluate]
      exact (pointsInto_of_evaluate value h.2.2).bind fun v => failsOnly_declare h.2.1

end Node

section Sources

variable {source : String} {stream : TokenStream} {fault : Fault}

theorem pointsInto_of_parse_error
    (htokenize : tokenize source = .ok stream)
    (h : parse source = .error fault) :
    fault.PointsInto stream := by
  rw [parse_of_tokenize htokenize] at h
  rcases refuses_of_toProgram_error h with ⟨t, ht, hrefuses⟩ | hrefuses
  · exact hrefuses.pointsInto ht
  · exact hrefuses.pointsInto

theorem pointsInto_of_evaluateSource_error
    {c c' : Chain}
    (htokenize : tokenize source = .ok stream)
    (h : evaluateSource source c = .error fault c') :
    fault.PointsInto stream := by
  unfold evaluateSource at h
  cases hparse : parse source with
  | error fault' =>
      rw [hparse] at h
      cases h
      exact pointsInto_of_parse_error htokenize hparse
  | ok program =>
      rw [hparse] at h
      rw [parse_of_tokenize htokenize] at hparse
      obtain ⟨body, rfl, hbody⟩ := Grammar.isMadeOf_of_toProgram hparse
      have hfails : FailsOnly (PointsInto stream)
          (Node.program .unknown body).evaluate := by
        rw [Node.evaluate]
        exact failsOnly_evaluateAll .null fun n hn => n.pointsInto_of_evaluate (hbody n hn)
      exact hfails c fault c' h

/-- What a fault points at is a place of the text. -/
theorem Fault.PointsInto.hasPlace
    (htokenize : tokenize source = .ok stream)
    (h : fault.PointsInto stream) :
    Text.HasPlace source.toList fault.pos := by
  rcases h.exists_pos with ⟨t, ht, hpos⟩ | hpos
  · rw [← hpos]
    exact (standsIn_of_mem_tokens htokenize ht).hasPlace
  · rw [← hpos, TokenStream.finish_of_read htokenize]
    have hplace := Text.hasPlace_after source.toList []
    rwa [List.append_nil] at hplace

/-- A lexical fault is at a place of the text, and quotes the text from there on. -/
theorem place_of_tokenize_error
    (h : tokenize source = .error fault) :
    Text.HasPlace source.toList fault.pos ∧
      fault.cause.snippet.toList <+: source.toList.drop
        (Text.offset source.toList fault.pos) := by
  obtain ⟨before, rest, hsource, hpos, hsnippet⟩ := TokenStream.exists_of_read_error [] h
  rw [List.nil_append] at hpos
  rw [hsource, hpos, Text.drop_offset_after]
  exact ⟨Text.hasPlace_after before rest, hsnippet⟩

/-- A text fails at a place of its own, and never for an internal reason. -/
theorem place_of_evaluateSource_error
    {c c' : Chain}
    (h : evaluateSource source c = .error fault c') :
    Text.HasPlace source.toList fault.pos ∧ fault.cause.kind ≠ .internal := by
  cases htokenize : tokenize source with
  | error fault' =>
      rw [evaluateSource, parse_of_tokenize_error htokenize] at h
      cases h
      refine ⟨(place_of_tokenize_error htokenize).1, ?_⟩
      rw [TokenStream.kind_of_read_error htokenize]
      decide
  | ok stream =>
      have hpoints := pointsInto_of_evaluateSource_error htokenize h
      refine ⟨hpoints.hasPlace htokenize, ?_⟩
      intro hkind
      simp only [PointsInto, hkind] at hpoints

/--
A fault is at a place of the text. It is lexical and quotes the text from there on, or
points at what it is about.
-/
theorem fault_points_at_cause
    {c : Chain}
    (h : tokenize source = .error fault ∨ parse source = .error fault ∨
      ∃ c', evaluateSource source c = .error fault c') :
    Text.HasPlace source.toList fault.pos ∧
      ((fault.cause.kind = .lexical ∧
          fault.cause.snippet.toList <+:
            source.toList.drop (Text.offset source.toList fault.pos)) ∨
        ∃ stream, tokenize source = .ok stream ∧ fault.PointsInto stream ∧
          ∀ t ∈ stream.tokens, t.pos = fault.pos →
            ∃ w, t.lexeme.Spelled w ∧
              w <+: source.toList.drop (Text.offset source.toList fault.pos)) := by
  cases htokenize : tokenize source with
  | error fault' =>
      have hparse := parse_of_tokenize_error htokenize
      obtain rfl : fault' = fault := by
        rcases h with h | h | ⟨c', h⟩
        · exact Except.error.inj (htokenize.symm.trans h)
        · exact Except.error.inj (hparse.symm.trans h)
        · rw [evaluateSource, hparse] at h
          cases h
          rfl
      obtain ⟨hplace, hsnippet⟩ := place_of_tokenize_error htokenize
      exact ⟨hplace, Or.inl ⟨TokenStream.kind_of_read_error htokenize, hsnippet⟩⟩
  | ok stream =>
      have hpoints : fault.PointsInto stream := by
        rcases h with h | h | ⟨c', h⟩
        · cases htokenize.symm.trans h
        · exact pointsInto_of_parse_error htokenize h
        · exact pointsInto_of_evaluateSource_error htokenize h
      refine ⟨hpoints.hasPlace htokenize, Or.inr ⟨stream, rfl, hpoints, ?_⟩⟩
      intro t ht hpos
      rw [← hpos]
      exact (standsIn_of_mem_tokens htokenize ht).exists_spelled_at_offset

end Sources

/-- A string that goes over two lines cannot be subtracted from: the fault is at the minus
sign on the third. -/
theorem fault_points_at_cause_minus :
    ∃ c', evaluateSource "let a = \"x\ny\";\n(a) - e" (Chain.initial "1") =
        .error ⟨.mismatch "-" "string" "number", ⟨3, 5⟩⟩ c' ∧
      Text.HasPlace "let a = \"x\ny\";\n(a) - e".toList ⟨3, 5⟩ ∧
      ∃ stream, tokenize "let a = \"x\ny\";\n(a) - e" = .ok stream ∧
        ∃ op : Operator, op.symbol = "-" ∧ ⟨.operator op, ⟨3, 5⟩⟩ ∈ stream.tokens := by
  have htokens : tokenize "let a = \"x\ny\";\n(a) - e" =
      .ok ⟨[⟨.declare false, ⟨1, 1⟩⟩, ⟨.identifier "a", ⟨1, 5⟩⟩,
        ⟨.operator .assign, ⟨1, 7⟩⟩, ⟨.string "x\ny", ⟨1, 9⟩⟩, ⟨.semicolon, ⟨2, 3⟩⟩,
        ⟨.openParen, ⟨3, 1⟩⟩, ⟨.identifier "a", ⟨3, 2⟩⟩, ⟨.closeParen, ⟨3, 3⟩⟩,
        ⟨.operator (.binary (.arith .sub)), ⟨3, 5⟩⟩, ⟨.identifier "e", ⟨3, 7⟩⟩],
        ⟨3, 8⟩⟩ := by
    decide +kernel
  have hparse : parse "let a = \"x\ny\";\n(a) - e" = .ok (.program .unknown
      [.declaration ⟨1, 1⟩ "a" ⟨1, 5⟩ false (some (.string ⟨1, 9⟩ "x\ny")),
        .operation .arithmetic ⟨3, 2⟩ "-" ⟨3, 5⟩ (.identifier ⟨3, 2⟩ "a")
          (.identifier ⟨3, 7⟩ "e")]) :=
    (parse_of_tokenize htokens).trans rfl
  have hrun : ∃ c', evaluateSource "let a = \"x\ny\";\n(a) - e" (Chain.initial "1") =
      .error ⟨.mismatch "-" "string" "number", ⟨3, 5⟩⟩ c' := by
    rw [evaluateSource, hparse]
    exact ⟨_, rfl⟩
  obtain ⟨hplace, hcases⟩ := fault_points_at_cause (Or.inr (Or.inr hrun))
  obtain ⟨c', hrun⟩ := hrun
  refine ⟨c', hrun, hplace, ?_⟩
  rcases hcases with ⟨hkind, _⟩ | ⟨stream, htokenize, hpoints, _⟩
  · cases hkind
  · exact ⟨stream, htokenize, hpoints⟩

end LetLang
