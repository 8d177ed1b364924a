import LetLang.Proofs.Grammar.Acceptance
import LetLang.Proofs.Grammar.Reconstruction
import LetLang.Proofs.Token.Spelling

/-!
# The parser and its grammar

Reading a token stream succeeds exactly when the grammar derives the tokens, and the tree
that is read is the tree of the one settled derivation: the derivation in which no bare
expression statement is followed by a minus sign.
-/

namespace LetLang
namespace Grammar

/-- The parser accepts the derivable token sequences. -/
theorem exists_toProgram_iff
    (stream : TokenStream) :
    (∃ program, stream.toProgram = .ok program) ↔
      ∃ p : Program, p.yield = stream.tokens := by
  constructor
  · rintro ⟨program, h⟩
    obtain ⟨p, _, hyield, _⟩ := exists_settled_of_toProgram h
    exact ⟨p, hyield⟩
  · rintro ⟨p, h⟩
    exact exists_toProgram_of_yield h

/-- A settled derivation of the tokens gives the tree that is read. -/
theorem toProgram_eq_of_settled
    {stream : TokenStream} {p : Program}
    (hp : p.Settled)
    (h : p.yield = stream.tokens) :
    stream.toProgram = .ok (.program .unknown p.nodes) := by
  obtain ⟨program, hprogram⟩ := exists_toProgram_of_yield h
  obtain ⟨q, hq, hyield, rfl⟩ := exists_settled_of_toProgram hprogram
  rw [hprogram, Program.eq_of_yield_eq hp hq (h.trans hyield.symm)]

/-- A text with a lexical fault is refused with that fault. Any other text is accepted
exactly when the grammar derives its tokens, and then its tree is the tree of their only
settled derivation. -/
theorem parse_agrees_with_grammar
    (source : String) :
    (∀ fault, tokenize source = .error fault →
      parse source = .error fault ∧ fault.cause.kind = .lexical) ∧
    ∀ stream, tokenize source = .ok stream →
      ((∃ program, parse source = .ok program) ↔ ∃ p : Program, p.yield = stream.tokens) ∧
      ∀ program, parse source = .ok program →
        ∃ p : Program,
          p.yield = stream.tokens ∧ p.Settled ∧
          (∀ q : Program, q.yield = stream.tokens → q.Settled → q = p) ∧
          program = .program .unknown p.nodes := by
  constructor
  · intro fault h
    exact ⟨parse_of_tokenize_error h, TokenStream.kind_of_read_error h⟩
  · intro stream h
    rw [parse_of_tokenize h]
    refine ⟨exists_toProgram_iff stream, ?_⟩
    intro program hprogram
    obtain ⟨p, hp, hyield, htree⟩ := exists_settled_of_toProgram hprogram
    refine ⟨p, hyield, hp, ?_, htree⟩
    intro q hq hsettled
    exact Program.eq_of_yield_eq hsettled hp (hq.trans hyield.symm)

/-- A lone point is no token, and `1 -2` has one settled derivation, although it is also
derived as two statements. -/
theorem parse_agrees_with_grammar_minus :
    (parse "." = .error ⟨.noDigits ".", ⟨1, 1⟩⟩ ∧ (Cause.noDigits ".").kind = .lexical) ∧
    ∃ program,
      parse "1 -2" = .ok program ∧
      ∃ p : Program,
        p.yield = [⟨.number "1", ⟨1, 1⟩⟩,
          ⟨.operator (.binary (.arith .sub)), ⟨1, 3⟩⟩, ⟨.number "2", ⟨1, 4⟩⟩] ∧
        p.Settled ∧
        (∀ q : Program,
          q.yield = [⟨.number "1", ⟨1, 1⟩⟩,
            ⟨.operator (.binary (.arith .sub)), ⟨1, 3⟩⟩, ⟨.number "2", ⟨1, 4⟩⟩] →
          q.Settled → q = p) ∧
        program = .program .unknown p.nodes := by
  have hpoint : tokenize "." = .error ⟨.noDigits ".", ⟨1, 1⟩⟩ := by
    decide +kernel
  have hstream : tokenize "1 -2" =
      .ok ⟨[⟨.number "1", ⟨1, 1⟩⟩, ⟨.operator (.binary (.arith .sub)), ⟨1, 3⟩⟩,
        ⟨.number "2", ⟨1, 4⟩⟩], ⟨1, 5⟩⟩ := by
    decide +kernel
  obtain ⟨program, hprogram⟩ : ∃ program, parse "1 -2" = .ok program :=
    ⟨_, (parse_of_tokenize hstream).trans rfl⟩
  refine ⟨(parse_agrees_with_grammar ".").1 _ hpoint, program, hprogram, ?_⟩
  exact ((parse_agrees_with_grammar "1 -2").2 _ hstream).2 program hprogram

end Grammar
end LetLang
