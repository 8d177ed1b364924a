import LetLang.Proofs.Grammar.Joining
import LetLang.Proofs.Grammar.Rendering
import LetLang.Proofs.Token.Adjacency
import LetLang.Proofs.Tree.Origin

/-!
# Refusal at the earliest token

The builder takes a sequence of tokens exactly if a program begins with them. What it has
taken can always be completed: an operand and an end of the statement, and before it the
parentheses that are open. What it refuses is refused in all programs, since it takes the
tokens of every derivation. So the token at which it stops is the first one that no program
has there. The end of the text counts as the last token.
-/

namespace LetLang

namespace Token

/-- What the tokens say, and after them the end of the text, which says nothing. -/
def terminals (ts : List Token) : List (Option Lexeme) :=
  (ts.map lexeme).map some ++ [none]

theorem take_terminals
    {ts : List Token} {k : Nat}
    (hk : k ≤ ts.length) :
    (terminals ts).take k = ((ts.take k).map lexeme).map some := by
  rw [terminals, List.take_append_of_le_length (by simpa using hk),
    List.map_take, List.map_take]

theorem isPrefix_terminals_iff
    (us ts : List Token) :
    (us.map lexeme).map some <+: terminals ts ↔ us.map lexeme <+: ts.map lexeme := by
  rw [terminals, List.prefix_concat_iff,
    List.prefix_map_iff_of_injective (Option.some_injective Lexeme)]
  refine or_iff_right fun heq => ?_
  have hend : none ∈ (us.map lexeme).map some := by
    rw [heq]
    simp
  simp at hend

/-- Up to the end of the text, there is no other sequence that begins so. -/
theorem terminals_isPrefix_iff
    (us ts : List Token) :
    terminals us <+: terminals ts ↔ us.map lexeme = ts.map lexeme := by
  constructor
  · intro h
    rcases List.prefix_concat_iff.mp h with heq | hprefix
    · have hsome := List.append_cancel_right heq
      exact List.map_injective_iff.mpr (Option.some_injective Lexeme) hsome
    · have hend : none ∈ (ts.map lexeme).map some := by
        refine hprefix.subset ?_
        simp [terminals]
      simp at hend
  · intro h
    rw [terminals, terminals, h]

end Token

namespace Grammar

open Builder LetLang.Frame

namespace Derivation

/-- Whether tokens can be derived depends on what they say, and not on where they stand. -/
theorem exists_of_lexemes :
    {N : Nonterminal} → (d : Derivation N) → {ts : List Token} →
      ts.map Token.lexeme = d.yield.map Token.lexeme → ∃ d' : Derivation N, d'.yield = ts
  | _, plain e, _, h => by
      obtain ⟨e', rfl⟩ := exists_of_lexemes e h
      exact ⟨plain e', rfl⟩
  | _, assignment target pos value, _, h => by
      rw [yield, List.map_append, List.map_cons] at h
      obtain ⟨us, rest, rfl, hus, hrest⟩ := List.map_eq_append_iff.mp h
      obtain ⟨pos', vs, rfl, hvs⟩ := Node.exists_token hrest
      obtain ⟨target', rfl⟩ := exists_of_lexemes target hus
      obtain ⟨value', rfl⟩ := exists_of_lexemes value hvs
      exact ⟨assignment target' pos' value', rfl⟩
  | _, chain loosest tightest first rest, _, h => by
      rw [yield, List.map_append] at h
      obtain ⟨us, vs, rfl, hus, hvs⟩ := List.map_eq_append_iff.mp h
      obtain ⟨first', rfl⟩ := exists_of_lexemes first hus
      obtain ⟨rest', rfl⟩ := exists_of_lexemes rest hvs
      exact ⟨chain loosest tightest first' rest', rfl⟩
  | _, stop, _, h => by
      obtain rfl := List.map_eq_nil_iff.mp h
      exact ⟨stop, rfl⟩
  | _, link op hop pos operand rest, _, h => by
      rw [yield, List.map_cons, List.map_append] at h
      obtain ⟨pos', tail, rfl, htail⟩ := Node.exists_token h
      obtain ⟨us, vs, rfl, hus, hvs⟩ := List.map_eq_append_iff.mp htail
      obtain ⟨operand', rfl⟩ := exists_of_lexemes operand hus
      obtain ⟨rest', rfl⟩ := exists_of_lexemes rest hvs
      exact ⟨link op hop pos' operand' rest', rfl⟩
  | _, sign s pos operand, _, h => by
      rw [yield, List.map_cons] at h
      obtain ⟨pos', us, rfl, hus⟩ := Node.exists_token h
      obtain ⟨operand', rfl⟩ := exists_of_lexemes operand hus
      exact ⟨sign s pos' operand', rfl⟩
  | _, primary e, _, h => by
      obtain ⟨e', rfl⟩ := exists_of_lexemes e h
      exact ⟨primary e', rfl⟩
  | _, identifier pos name, _, h => by
      obtain ⟨pos', rfl⟩ := Node.exists_last_token h
      exact ⟨identifier pos' name, rfl⟩
  | _, number pos digits, _, h => by
      obtain ⟨pos', rfl⟩ := Node.exists_last_token h
      exact ⟨number pos' digits, rfl⟩
  | _, string pos text, _, h => by
      obtain ⟨pos', rfl⟩ := Node.exists_last_token h
      exact ⟨string pos' text, rfl⟩
  | _, paren opening inner closing, _, h => by
      rw [yield, List.map_cons, List.map_append] at h
      obtain ⟨opening', tail, rfl, htail⟩ := Node.exists_token h
      obtain ⟨us, last, rfl, hus, hlast⟩ := List.map_eq_append_iff.mp htail
      obtain ⟨closing', rfl⟩ := Node.exists_last_token hlast
      obtain ⟨inner', rfl⟩ := exists_of_lexemes inner hus
      exact ⟨paren opening' inner' closing', rfl⟩

end Derivation

theorem Statement.exists_of_lexemes
    (s : Statement) {ts : List Token}
    (h : ts.map Token.lexeme = s.yield.map Token.lexeme) :
    ∃ s' : Statement, s'.yield = ts := by
  cases s with
  | unset keyword name namePos semicolon =>
      obtain ⟨keyword', us, rfl, hus⟩ := Node.exists_token h
      obtain ⟨namePos', vs, rfl, hvs⟩ := Node.exists_token hus
      obtain ⟨semicolon', rfl⟩ := Node.exists_last_token hvs
      exact ⟨.unset keyword' name namePos' semicolon', rfl⟩
  | set constant keyword name namePos equals value semicolon =>
      rw [yield, List.map_cons, List.map_cons, List.map_cons, List.map_append] at h
      obtain ⟨keyword', us, rfl, hus⟩ := Node.exists_token h
      obtain ⟨namePos', vs, rfl, hvs⟩ := Node.exists_token hus
      obtain ⟨equals', rest, rfl, hrest⟩ := Node.exists_token hvs
      obtain ⟨xs, last, rfl, hxs, hlast⟩ := List.map_eq_append_iff.mp hrest
      obtain ⟨semicolon', rfl⟩ := Node.exists_last_token hlast
      obtain ⟨value', rfl⟩ := value.exists_of_lexemes hxs
      exact ⟨.set constant keyword' name namePos' equals' value' semicolon', rfl⟩
  | expression e semicolon =>
      cases semicolon with
      | none =>
          obtain ⟨e', rfl⟩ := e.exists_of_lexemes h
          exact ⟨.expression e' none, rfl⟩
      | some pos =>
          rw [yield, List.map_append] at h
          obtain ⟨us, last, rfl, hus, hlast⟩ := List.map_eq_append_iff.mp h
          obtain ⟨pos', rfl⟩ := Node.exists_last_token hlast
          obtain ⟨e', rfl⟩ := e.exists_of_lexemes hus
          exact ⟨.expression e' (some pos'), rfl⟩

theorem Program.exists_of_lexemes
    (p : Program) {ts : List Token}
    (h : ts.map Token.lexeme = p.yield.map Token.lexeme) :
    ∃ p' : Program, p'.yield = ts := by
  induction p generalizing ts with
  | nil =>
      obtain rfl := List.map_eq_nil_iff.mp h
      exact ⟨[], rfl⟩
  | cons s p ih =>
      rw [yield_cons, List.map_append] at h
      obtain ⟨us, vs, rfl, hus, hvs⟩ := List.map_eq_append_iff.mp h
      obtain ⟨s', rfl⟩ := s.exists_of_lexemes hus
      obtain ⟨p', rfl⟩ := ih hvs
      exact ⟨s' :: p', yield_cons s' p'⟩

/-- What completes a program that has been begun. -/
def fillers : List Lexeme :=
  [.identifier "x", .operator .assign, .closeParen, .semicolon]

theorem spelled_of_mem_fillers
    {lexeme : Lexeme}
    (h : lexeme ∈ fillers) :
    ∃ w, lexeme.Spelled w := by
  simp only [fillers, List.mem_cons, List.not_mem_nil, or_false] at h
  rcases h with rfl | rfl | rfl | rfl
  · exact ⟨['x'], rfl, ⟨List.cons_ne_nil _ _, List.all_eq_true.mp rfl⟩, by decide⟩
  · exact ⟨_, rfl⟩
  · exact ⟨_, rfl⟩
  · exact ⟨_, rfl⟩

/-- The builder comes to a place where the text may end. -/
def Completable (b : Builder) : Prop :=
  ∃ ts b', b.run ts = .ok b' ∧ AtBoundary b' ∧ ∀ t ∈ ts, t.lexeme ∈ fillers

theorem Completable.of_step
    {b b' : Builder} {lexeme : Lexeme} {pos : Pos}
    (hstep : b.step ⟨lexeme, pos⟩ = .ok b')
    (hlexeme : lexeme ∈ fillers)
    (h : Completable b') :
    Completable b := by
  obtain ⟨ts, b'', hrun, hb'', hts⟩ := h
  refine ⟨⟨lexeme, pos⟩ :: ts, b'', ?_, hb'', List.forall_mem_cons.mpr ⟨hlexeme, hts⟩⟩
  rw [run_cons_of_ok hstep, hrun]

theorem completable_ready
    (finished : List Node) :
    Completable ⟨finished, .ready⟩ := by
  exact ⟨[], _, rfl, Or.inl rfl, List.forall_mem_nil _⟩

/-- After an operand, the open parentheses are closed and the statement is ended. -/
theorem completable_operator
    (finished : List Node) (goal : Goal) (frames : List Frame) (node : Node) :
    Completable ⟨finished, .operator goal frames node⟩ := by
  induction hdepth : openParens frames generalizing frames node with
  | zero =>
      obtain ⟨n, hstep⟩ := step_semicolon finished goal node .unknown hdepth
      exact .of_step hstep (by simp [fillers]) (completable_ready (n :: finished))
  | succ depth ih =>
      obtain ⟨frames', node', hstep, hdepth'⟩ :=
        step_closeParen finished goal node .unknown hdepth
      exact .of_step hstep (by simp [fillers]) (ih frames' node' hdepth')

theorem completable_operand
    (finished : List Node) (goal : Goal) (frames : List Frame) :
    Completable ⟨finished, .operand goal frames⟩ := by
  have hstep :
      step ⟨finished, .operand goal frames⟩ ⟨.identifier "x", .unknown⟩ =
        .ok ⟨finished, .operator goal frames (.identifier .unknown "x")⟩ := by
    rfl
  exact .of_step hstep (by simp [fillers]) (completable_operator finished goal frames _)

theorem completable_value
    (finished : List Node) (pos : Pos) (name : String) (namePos : Pos) (constant : Bool) :
    Completable ⟨finished, .value pos name namePos constant⟩ := by
  have hstep :
      step ⟨finished, .value pos name namePos constant⟩ ⟨.operator .assign, .unknown⟩ =
        .ok ⟨finished, .operand (.declaration pos name namePos constant) []⟩ := by
    cases constant <;> rfl
  exact .of_step hstep (by simp [fillers]) (completable_operand finished _ [])

/-- Whatever has been read can be completed. -/
theorem completable
    (b : Builder) :
    Completable b := by
  obtain ⟨finished, stage⟩ := b
  cases stage with
  | ready => exact completable_ready finished
  | name pos constant =>
      have hstep :
          step ⟨finished, .name pos constant⟩ ⟨.identifier "x", .unknown⟩ =
            .ok ⟨finished, .value pos "x" .unknown constant⟩ := by
        rfl
      exact .of_step hstep (by simp [fillers])
        (completable_value finished pos "x" .unknown constant)
  | value pos name namePos constant =>
      exact completable_value finished pos name namePos constant
  | operand goal frames => exact completable_operand finished goal frames
  | operator goal frames node => exact completable_operator finished goal frames node

/-- A program begins with the tokens that have been taken. -/
theorem exists_program_of_run
    {ts : List Token} {b : Builder}
    (h : Builder.start.run ts = .ok b) :
    ∃ (p : Program) (us : List Token), p.yield = ts ++ us ∧
      ∀ t ∈ us, t.lexeme ∈ fillers := by
  obtain ⟨us, b', hrun, hb', hus⟩ := completable b
  obtain ⟨body, hbody⟩ := finish_of_atBoundary hb' .unknown
  have hall := (run_append_of_ok h us).trans hrun
  obtain ⟨p, _, hyield, _⟩ := (reads_start.run hall).finish hbody
  exact ⟨p, us, hyield, hus⟩

/-- The tokens that a program begins with are taken, wherever they stand. -/
theorem exists_run_of_isPrefix
    {ts : List Token} {p : Program}
    (h : ts.map Token.lexeme <+: p.yield.map Token.lexeme) :
    ∃ b, Builder.start.run ts = .ok b := by
  obtain ⟨ws, hws⟩ := h
  obtain ⟨us, vs, hyield, hus, _⟩ := List.map_eq_append_iff.mp hws.symm
  have hlexemes : (ts ++ vs).map Token.lexeme = p.yield.map Token.lexeme := by
    rw [hyield, List.map_append, List.map_append, hus]
  obtain ⟨q, hq⟩ := p.exists_of_lexemes hlexemes
  obtain ⟨b', hrun, _⟩ := passes_program atBoundary_start q
  rw [hq, run_append] at hrun
  obtain ⟨b, hb, _⟩ := exists_of_bind_eq_ok hrun
  exact ⟨b, hb⟩

/-- A program of a text begins with the tokens that have been taken, if they can
be spelled. -/
theorem exists_text_of_run
    {ts : List Token} {b : Builder}
    (h : Builder.start.run ts = .ok b)
    (hts : Legible ts) :
    ∃ (text : String) (stream : TokenStream) (p : Program),
      tokenize text = .ok stream ∧ p.yield = stream.tokens ∧
      ts.map Token.lexeme <+: stream.tokens.map Token.lexeme := by
  obtain ⟨p, us, hyield, hus⟩ := exists_program_of_run h
  have hspelled : ∀ lexeme ∈ p.yield.map Token.lexeme, ∃ w, lexeme.Spelled w := by
    rw [hyield, List.map_append]
    refine List.forall_mem_append.mpr ⟨List.forall_mem_map.mpr hts,
      List.forall_mem_map.mpr ?_⟩
    intro t ht
    exact spelled_of_mem_fillers (hus t ht)
  have helse : .conditional .otherwise ∉ p.yield.map Token.lexeme := by
    intro hmem
    obtain ⟨t, ht, hlexeme⟩ := List.mem_map.mp hmem
    exact p.lexeme_ne_conditional .otherwise t ht hlexeme
  obtain ⟨text, stream, htokenize, hlexemes⟩ :=
    exists_tokenize hspelled (Lexeme.isChain_apart_of_not_mem helse)
  obtain ⟨q, hq⟩ := p.exists_of_lexemes hlexemes
  refine ⟨text, stream, q, htokenize, hq, us.map Token.lexeme, ?_⟩
  rw [hlexemes, hyield, List.map_append]

end Grammar

/--
Where the reading stops: at the token that the fault reports, at the end of the text, or at
the semicolon after a constant without a value.
-/
inductive Fault.StopsAt (stream : TokenStream) : Fault → Nat → Prop
  | token
      {fault : Fault} {k : Nat} {t : Token}
      (ht : stream.tokens[k]? = some t)
      (h : fault.RefusesItself t) :
      StopsAt stream fault k
  | finish
      {fault : Fault}
      (h : fault.RefusesEnd stream.finish) :
      StopsAt stream fault stream.tokens.length
  | constant
      {k : Nat} {name : String} {namePos semicolon : Pos}
      (hname : stream.tokens[k]? = some ⟨.identifier name, namePos⟩)
      (hsemicolon : stream.tokens[k + 1]? = some ⟨.semicolon, semicolon⟩) :
      StopsAt stream ⟨.constantWithoutValue name, namePos⟩ (k + 1)

/-- What a fault reports tells where the reading has stopped. -/
theorem Fault.StopsAt.eq
    {source : String} {stream : TokenStream} {fault : Fault} {j k : Nat}
    (htokens : tokenize source = .ok stream)
    (hj : fault.StopsAt stream j)
    (hk : fault.StopsAt stream k) :
    j = k := by
  have hends : ∀ {i : Nat} {t : Token}, stream.tokens[i]? =
      some t → t.pos ≠ stream.finish :=
    fun ht => TokenStream.pos_ne_finish htokens (List.mem_of_getElem? ht)
  cases hj with
  | token ht h =>
      cases hk with
      | token hu h' =>
          exact TokenStream.index_eq_of_pos_eq htokens ht hu
            (h.pos_eq.symm.trans h'.pos_eq)
      | finish h' => exact absurd (h.pos_eq.symm.trans h'.pos_eq) (hends ht)
      | constant hname hsemicolon => exact absurd rfl (h.cause_ne _)
  | finish h =>
      cases hk with
      | token hu h' => exact absurd (h'.pos_eq.symm.trans h.pos_eq) (hends hu)
      | finish h' => rfl
      | constant hname hsemicolon => exact absurd h.pos_eq (hends hname)
  | constant hname hsemicolon =>
      cases hk with
      | token hu h' => exact absurd rfl (h'.cause_ne _)
      | finish h' => exact absurd h'.pos_eq (hends hname)
      | constant hname' hsemicolon' =>
          exact congrArg Nat.succ (TokenStream.index_eq_of_pos_eq htokens hname hname' rfl)

open Grammar

/-- Where the tokens are no program, the reading stops after tokens that have been taken,
at one that is refused or at the end. -/
theorem TokenStream.exists_stopsAt
    {stream : TokenStream} {fault : Fault}
    (h : stream.toProgram = .error fault) :
    ∃ k, fault.StopsAt stream k ∧ (∃ b, Builder.start.run (stream.tokens.take k) = .ok b) ∧
      (k = stream.tokens.length ∨
        k < stream.tokens.length ∧
          Builder.start.run (stream.tokens.take (k + 1)) = .error fault) := by
  rcases stream.toProgram_eq_error h with hrun | ⟨b, hrun, hfinish⟩
  · obtain ⟨before, t, after, b, htokens, hbefore, hstep⟩ :=
      Builder.exists_of_run_error hrun
    have htaken : stream.tokens.take before.length = before := by
      rw [htokens, List.take_left]
    have hreached : stream.tokens.take (before.length + 1) = before ++ [t] := by
      rw [htokens, List.take_length_add_append, List.take_succ_cons, List.take_zero]
    refine ⟨before.length, ?_, ⟨b, by rw [htaken, hbefore]⟩,
      Or.inr ⟨by simp [htokens], ?_⟩⟩
    · rcases Builder.refuses_of_step_error hstep
        with hrefuses | ⟨pos, name, namePos, hstage, hlexeme, rfl⟩
      · exact .token (by simp [htokens]) hrefuses
      · -- the name is the last token that has been taken, and the semicolon comes after it
        obtain ⟨first, hfirst⟩ :=
          Builder.exists_of_reads_value (reads_start.run hbefore) hstage
        rw [List.nil_append] at hfirst
        subst hfirst
        obtain ⟨lexeme, semicolon⟩ := t
        subst hlexeme
        have hname : stream.tokens[first.length]? = some ⟨.identifier name, namePos⟩ := by
          simp [htokens]
        have hsemicolon : stream.tokens[first.length + 1]? =
            some ⟨.semicolon, semicolon⟩ := by
          simp [htokens]
        rw [List.length_append]
        exact .constant hname hsemicolon
    · rw [hreached, Builder.run_append_of_ok hbefore, Builder.run_cons, hstep]
      rfl
  · refine ⟨stream.tokens.length, .finish (Builder.refusesEnd_of_finish_error hfinish),
      ⟨b, ?_⟩, Or.inl rfl⟩
    rw [List.take_length, hrun]

/--
A text is refused at the earliest token: some program begins with the tokens before it, and
none with these and the token itself.
-/
theorem parse_refuses_earliest
    {source : String} {stream : TokenStream} {fault : Fault}
    (htokens : tokenize source = .ok stream)
    (hfault : parse source = .error fault) :
    fault.cause.kind = .grammar ∧
      ∃ k, fault.StopsAt stream k ∧ (∀ j, fault.StopsAt stream j → j = k) ∧
        (∃ (text : String) (other : TokenStream) (p : Program),
          tokenize text = .ok other ∧ p.yield = other.tokens ∧
          (Token.terminals stream.tokens).take k <+: Token.terminals other.tokens) ∧
        ∀ p : Program,
          ¬ (Token.terminals stream.tokens).take (k + 1) <+: Token.terminals p.yield := by
  rw [parse_of_tokenize htokens] at hfault
  have hkind : fault.cause.kind = .grammar := by
    rcases refuses_of_toProgram_error hfault with ⟨t, _, hrefuses⟩ | hrefuses
    · exact hrefuses.kind_eq
    · exact hrefuses.kind_eq
  obtain ⟨k, hstops, ⟨b, hb⟩, hrefused⟩ := stream.exists_stopsAt hfault
  refine ⟨hkind, k, hstops, fun j hj => hj.eq htokens hstops, ?_, ?_⟩
  · have hle : k ≤ stream.tokens.length := by
      omega
    have hlegible : Legible (stream.tokens.take k) :=
      fun t ht => TokenStream.spelled_of_mem_read htokens (List.mem_of_mem_take ht)
    obtain ⟨text, other, p, htext, hyield, hprefix⟩ := exists_text_of_run hb hlegible
    refine ⟨text, other, p, htext, hyield, ?_⟩
    rwa [Token.take_terminals hle, Token.isPrefix_terminals_iff]
  · intro p hprefix
    rcases hrefused with rfl | ⟨hlt, herror⟩
    · -- at the end, the tokens would be all tokens of a program
      rw [List.take_of_length_le (by simp [Token.terminals]),
        Token.terminals_isPrefix_iff] at hprefix
      obtain ⟨q, hq⟩ := p.exists_of_lexemes hprefix
      obtain ⟨program, hprogram⟩ := exists_toProgram_of_yield hq
      rw [hfault] at hprogram
      cases hprogram
    · rw [Token.take_terminals hlt, Token.isPrefix_terminals_iff] at hprefix
      obtain ⟨b', hb'⟩ := exists_run_of_isPrefix hprefix
      rw [herror] at hb'
      cases hb'

/-- A constant is refused at its semicolon: programs begin with the keyword and the name,
and none goes on with a semicolon. -/
theorem parse_refuses_earliest_constant :
    parse "const x;" = .error ⟨.constantWithoutValue "x", ⟨1, 7⟩⟩ ∧
      (∃ (text : String) (other : TokenStream) (p : Program),
        tokenize text = .ok other ∧ p.yield = other.tokens ∧
        [some (.declare true), some (.identifier "x")] <+: Token.terminals other.tokens) ∧
      ∀ p : Program,
        ¬ [some (.declare true), some (.identifier "x"), some .semicolon] <+:
          Token.terminals p.yield := by
  have htokens : tokenize "const x;" =
      .ok ⟨[⟨.declare true, ⟨1, 1⟩⟩, ⟨.identifier "x", ⟨1, 7⟩⟩,
        ⟨.semicolon, ⟨1, 8⟩⟩], ⟨1, 9⟩⟩ := by
    decide +kernel
  have hfault : parse "const x;" = .error ⟨.constantWithoutValue "x", ⟨1, 7⟩⟩ :=
    (parse_of_tokenize htokens).trans rfl
  obtain ⟨_, k, _, hunique, hbegins, hrefused⟩ := parse_refuses_earliest htokens hfault
  obtain rfl : 2 = k := hunique 2 (.constant rfl rfl)
  exact ⟨hfault, hbegins, hrefused⟩

end LetLang
