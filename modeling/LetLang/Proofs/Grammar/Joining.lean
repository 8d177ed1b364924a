import LetLang.Proofs.Grammar.Parsing
import LetLang.Proofs.Token.Spacing
import LetLang.Proofs.Tree.Placement

/-!
# Joining texts

A text is complete if it can be read and its last token is a semicolon. Complete texts can
be joined by newlines: the joined text is read as the statements of its parts in order,
each part at the line on which it begins.
-/

namespace LetLang
namespace Grammar

/-- No token of an expression is a semicolon or the keyword of a conditional. -/
theorem Derivation.lexeme_ne_of_mem_yield :
    {N : Nonterminal} → (d : Derivation N) → ∀ t ∈ d.yield,
      t.lexeme ≠ .semicolon ∧ ∀ branch, t.lexeme ≠ .conditional branch
  | _, plain e => lexeme_ne_of_mem_yield e
  | _, assignment target pos value => by
      have htarget := lexeme_ne_of_mem_yield target
      have hvalue := lexeme_ne_of_mem_yield value
      simp only [yield, List.forall_mem_append, List.forall_mem_cons]
      exact ⟨htarget, ⟨by simp, by simp⟩, hvalue⟩
  | _, chain loosest tightest first rest => by
      have hfirst := lexeme_ne_of_mem_yield first
      have hrest := lexeme_ne_of_mem_yield rest
      simp only [yield, List.forall_mem_append]
      exact ⟨hfirst, hrest⟩
  | _, stop => List.forall_mem_nil _
  | _, link op hop pos operand rest => by
      have hoperand := lexeme_ne_of_mem_yield operand
      have hrest := lexeme_ne_of_mem_yield rest
      simp only [yield, List.forall_mem_append, List.forall_mem_cons]
      exact ⟨⟨by simp, by simp⟩, hoperand, hrest⟩
  | _, sign s pos operand => by
      have hoperand := lexeme_ne_of_mem_yield operand
      simp only [yield, List.forall_mem_cons]
      exact ⟨⟨by simp, by simp⟩, hoperand⟩
  | _, primary e => lexeme_ne_of_mem_yield e
  | _, identifier pos name => by simp [yield]
  | _, number pos digits => by simp [yield]
  | _, string pos text => by simp [yield]
  | _, paren opening inner closing => by
      have hinner := lexeme_ne_of_mem_yield inner
      simp only [yield, List.forall_mem_append, List.forall_mem_cons]
      exact ⟨⟨by simp, by simp⟩, hinner, ⟨by simp, by simp⟩, List.forall_mem_nil _⟩

theorem Statement.lexeme_ne_conditional
    (s : Statement) (branch : Branch) :
    ∀ t ∈ s.yield, t.lexeme ≠ .conditional branch := by
  cases s with
  | unset keyword name namePos semicolon => simp [yield]
  | set constant keyword name namePos equals value semicolon =>
      have hvalue := fun t ht => (value.lexeme_ne_of_mem_yield t ht).2 branch
      simp only [yield, List.forall_mem_append, List.forall_mem_cons]
      exact ⟨by simp, by simp, by simp, hvalue, by simp, List.forall_mem_nil _⟩
  | expression e semicolon =>
      have he := fun t ht => (e.lexeme_ne_of_mem_yield t ht).2 branch
      cases semicolon with
      | none => exact he
      | some pos =>
          simp only [yield, List.forall_mem_append, List.forall_mem_cons]
          exact ⟨he, by simp, List.forall_mem_nil _⟩

theorem Program.lexeme_ne_conditional
    (p : Program) (branch : Branch) :
    ∀ t ∈ p.yield, t.lexeme ≠ .conditional branch := by
  intro t ht
  obtain ⟨s, _, hs⟩ := List.mem_flatMap.mp ht
  exact s.lexeme_ne_conditional branch t hs

/-- The last statement of a program whose last token is a semicolon is not bare. -/
theorem Program.isBare_of_semicolon
    {p : Program}
    (h : p.yield.getLast?.map Token.lexeme = some .semicolon) :
    ∀ s ∈ p.getLast?, s.isBare = false := by
  intro s hs
  obtain ⟨before, rfl⟩ := List.getLast?_eq_some_iff.mp hs
  cases s with
  | unset keyword name namePos semicolon => rfl
  | set constant keyword name namePos equals value semicolon => rfl
  | expression e semicolon =>
      cases semicolon with
      | some pos => rfl
      | none =>
          have hne : e.yield ≠ [] := by
            obtain ⟨t, ts, hyield, _⟩ := e.exists_yield_eq_cons
            rw [hyield]
            exact List.cons_ne_nil t ts
          rw [yield_append, List.getLast?_append] at h
          change ((e.yield ++ []).getLast?.or _).map _ = _ at h
          rw [List.append_nil, List.getLast?_eq_some_getLast hne] at h
          exact absurd (Option.some.inj h)
            (e.lexeme_ne_of_mem_yield _ (List.getLast_mem hne)).1

theorem Program.Settled.append
    {p q : Program}
    (hp : p.Settled)
    (hq : q.Settled)
    (hlast : ∀ s ∈ p.getLast?, s.isBare = false) :
    (p ++ q).Settled := by
  refine List.IsChain.append hp hq ?_
  intro s hs t _ hbare
  rw [hlast s hs] at hbare
  cases hbare

end Grammar

/-- The text can be read and its last token is a semicolon. -/
def Complete (source : String) : Prop :=
  ∃ stream program,
    tokenize source = .ok stream ∧ parse source = .ok program ∧
    stream.tokens.getLast?.map Token.lexeme = some .semicolon

/-- The statements of a text, none if it cannot be read. -/
def statementsOf (source : String) : List Node :=
  match parse source with
  | .ok program => program.statements
  | .error _ => []

/-- The number of lines of a text. -/
def lineCount (source : String) : Nat :=
  (Pos.start.after source.toList).line

/-- The statements of texts that stand one below the other, with `k` lines above them. -/
def placed (k : Nat) : List String → List Node
  | [] => []
  | source :: rest =>
      (statementsOf source).map (Node.relocate (Pos.down k)) ++
        placed (k + lineCount source) rest

open Grammar

/-- A complete text is a settled program that does not end with a bare expression. -/
theorem Complete.exists_program
    {source : String}
    (h : Complete source) :
    ∃ (stream : TokenStream) (p : Program),
      tokenize source = .ok stream ∧ p.Settled ∧ p.yield = stream.tokens ∧ p ≠ [] ∧
      parse source = .ok (.program .unknown p.nodes) ∧
        ∀ s ∈ p.getLast?, s.isBare = false := by
  obtain ⟨stream, program, htokenize, hparse, hlast⟩ := h
  have hprogram := hparse
  rw [parse_of_tokenize htokenize] at hprogram
  obtain ⟨p, hp, hyield, rfl⟩ := exists_settled_of_toProgram hprogram
  refine ⟨stream, p, htokenize, hp, hyield, ?_, hparse, ?_⟩
  · rintro rfl
    rw [← hyield] at hlast
    cases hlast
  · rw [← hyield] at hlast
    exact Program.isBare_of_semicolon hlast

theorem finish_next_newline
    {source : String} {stream : TokenStream} (k : Nat)
    (h : tokenize source = .ok stream) :
    (stream.relocate (Pos.down k)).finish.next '\n' =
      Pos.start.down (k + lineCount source) := by
  have hfinish := TokenStream.finish_of_read h
  change Pos.next (stream.finish.down k) '\n' = _
  rw [hfinish]
  simp only [Pos.next, if_true, Pos.down, Pos.start, lineCount, Pos.mk.injEq, and_true]
  omega

/-- Complete texts, joined by newlines, are read as their statements in order. -/
theorem exists_read_intercalate
    (k : Nat) {sources : List String}
    (h : ∀ source ∈ sources, Complete source) :
    ∃ (stream : TokenStream) (p : Program),
      TokenStream.read (Pos.start.down k) ("\n".intercalate sources).toList = .ok stream ∧
      p.Settled ∧ p.yield = stream.tokens ∧ p.nodes = placed k sources := by
  induction sources generalizing k with
  | nil =>
      refine ⟨⟨[], Pos.start.down k⟩, [], ?_, List.isChain_nil, rfl, rfl⟩
      rw [String.intercalate_nil, String.toList_empty, TokenStream.read]
  | cons source rest ih =>
      obtain ⟨stream, p, htokenize, hp, hyield, _, hparse, hlast⟩ :=
        (h source List.mem_cons_self).exists_program
      have hread := TokenStream.read_down k htokenize
      have hmoved : (p.relocate (Pos.down k)).yield =
          (stream.relocate (Pos.down k)).tokens := by
        rw [Program.yield_relocate, hyield]
        rfl
      have hnodes : (p.relocate (Pos.down k)).nodes =
          (statementsOf source).map (Node.relocate (Pos.down k)) := by
        rw [Program.nodes_relocate, statementsOf, hparse]
        rfl
      cases rest with
      | nil =>
          refine ⟨stream.relocate (Pos.down k), p.relocate (Pos.down k), ?_,
            hp.relocate _, hmoved, ?_⟩
          · rw [String.intercalate_singleton]
            exact hread
          · rw [hnodes, placed, placed, List.append_nil]
      | cons next others =>
          obtain ⟨stream', q, hread', hq, hyield', hnodes'⟩ :=
            ih (k + lineCount source) (fun s hs => h s (List.mem_cons_of_mem source hs))
          have hlastMoved :
              ∀ s ∈ (p.relocate (Pos.down k)).getLast?, s.isBare = false := by
            intro s hs
            rw [Program.relocate, List.getLast?_map] at hs
            obtain ⟨t, ht, rfl⟩ := Option.map_eq_some_iff.mp hs
            rw [Statement.isBare_relocate]
            exact hlast t ht
          refine ⟨(stream.relocate (Pos.down k)).append stream',
            p.relocate (Pos.down k) ++ q, ?_, (hp.relocate _).append hq hlastMoved, ?_, ?_⟩
          · rw [String.intercalate_cons_cons, String.toList_append, String.toList_append,
              List.append_assoc]
            refine TokenStream.read_newline hread ?_ ?_
            · rw [finish_next_newline k htokenize]
              exact hread'
            · intro t ht u _ helse
              rw [← hmoved] at ht
              exact absurd helse
                (Program.lexeme_ne_conditional _ .otherwise t (List.mem_of_getLast? ht))
          · rw [Program.yield_append, hmoved, hyield']
            rfl
          · rw [placed, ← hnodes, ← hnodes']
            exact List.map_append

/-- Complete texts can be joined. -/
theorem parse_intercalate
    {sources : List String}
    (h : ∀ source ∈ sources, Complete source) :
    parse ("\n".intercalate sources) = .ok (.program .unknown (placed 0 sources)) := by
  obtain ⟨stream, p, hread, hp, hyield, hnodes⟩ := exists_read_intercalate 0 h
  rw [parse_of_tokenize hread, toProgram_eq_of_settled hp hyield, hnodes]

end LetLang
