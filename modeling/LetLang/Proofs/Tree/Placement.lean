import LetLang.Proofs.Grammar.Reconstruction
import LetLang.Proofs.Tree.WellFormed

/-!
# Moving a text to another place

A text that begins further down gives the same tokens, and its trees are the same but for
their positions. `relocate` moves every position of a token, a tree or a derivation. Texts,
derivations and trees are moved alike.
-/

namespace LetLang
namespace Pos

/-- The position `k` lines further down. -/
def down (k : Nat) (p : Pos) : Pos :=
  ⟨p.line + k, p.column⟩

theorem next_down
    (k : Nat) (p : Pos) (c : Char) :
    (p.down k).next c = (p.next c).down k := by
  unfold next
  split
  · simp only [down, Pos.mk.injEq, and_true]
    omega
  · rfl

theorem after_down
    (k : Nat) (p : Pos) (cs : List Char) :
    (p.down k).after cs = (p.after cs).down k := by
  induction cs generalizing p with
  | nil => rfl
  | cons c cs ih => rw [after_cons, after_cons, next_down, ih]

end Pos

/-- The token at another place. -/
def Token.relocate (f : Pos → Pos) (t : Token) : Token :=
  ⟨t.lexeme, f t.pos⟩

namespace TokenStream

/-- The tokens at other places. -/
def relocate (f : Pos → Pos) (stream : TokenStream) : TokenStream :=
  ⟨stream.tokens.map (Token.relocate f), f stream.finish⟩

/-- A text that begins further down splits into the same tokens further down. -/
theorem read_down
    {pos : Pos} {cs : List Char} {stream : TokenStream} (k : Nat)
    (h : read pos cs = .ok stream) :
    read (pos.down k) cs = .ok (stream.relocate (Pos.down k)) := by
  fun_induction read pos cs generalizing stream with
  | case1 pos =>
      cases h
      rw [read]
      rfl
  | case2 pos c cs hskip ih =>
      rw [read, if_pos hskip, Pos.next_down]
      exact ih h
  | case3 pos c cs hskip cause hscan => cases h
  | case4 pos c cs hskip lexeme n hscan fault hread ih => cases h
  | case5 pos c cs hskip lexeme n hscan rest hread ih =>
      cases h
      rw [read, if_neg hskip]
      simp only [hscan, Pos.after_down, ih hread]
      rfl

theorem finish_of_read
    {pos : Pos} {cs : List Char} {stream : TokenStream}
    (h : read pos cs = .ok stream) :
    stream.finish = pos.after cs := by
  fun_induction read pos cs generalizing stream with
  | case1 pos =>
      cases h
      rfl
  | case2 pos c cs hskip ih => exact ih h
  | case3 pos c cs hskip cause hscan => cases h
  | case4 pos c cs hskip lexeme n hscan fault hread ih => cases h
  | case5 pos c cs hskip lexeme n hscan rest hread ih =>
      cases h
      have hrest := ih hread
      rw [← Pos.after_append, List.cons_append, List.take_append_drop] at hrest
      exact hrest

end TokenStream

namespace Node

mutual

/-- The tree at other places. -/
def relocate (f : Pos → Pos) : Node → Node
  | program pos body => program (f pos) (relocateAll f body)
  | declaration pos name namePos constant none =>
      declaration (f pos) name (f namePos) constant none
  | declaration pos name namePos constant (some value) =>
      declaration (f pos) name (f namePos) constant (some (relocate f value))
  | conditional pos branch condition block =>
      conditional (f pos) branch (relocate f condition) (relocateAll f block)
  | identifier pos name => identifier (f pos) name
  | number pos x => number (f pos) x
  | string pos text => string (f pos) text
  | operation family pos symbol symbolPos left right =>
      operation family (f pos) symbol (f symbolPos) (relocate f left) (relocate f right)
  | unary pos symbol operand => unary (f pos) symbol (relocate f operand)
  | assignment pos target value =>
      assignment (f pos) (relocate f target) (relocate f value)
  | unknown pos kindName => unknown (f pos) kindName

/-- The trees at other places. -/
def relocateAll (f : Pos → Pos) : List Node → List Node
  | [] => []
  | n :: ns => relocate f n :: relocateAll f ns

end

@[simp] theorem pos_relocate
    (f : Pos → Pos) (n : Node) :
    (n.relocate f).pos = f n.pos := by
  cases n with
  | declaration p name namePos constant value => cases value <;> simp [relocate, pos]
  | _ => simp [relocate, pos]

@[simp] theorem kindName_relocate
    (f : Pos → Pos) (n : Node) :
    (n.relocate f).kindName = n.kindName := by
  cases n with
  | declaration p name namePos constant value => cases value <;> simp [relocate, kindName]
  | _ => simp [relocate, kindName]

end Node

namespace Grammar

variable (f : Pos → Pos)

namespace Derivation

/-- The derivation of the tokens at other places. -/
def relocate : {N : Nonterminal} → Derivation N → Derivation N
  | _, plain e => plain (relocate e)
  | _, assignment target pos value => assignment (relocate target) (f pos) (relocate value)
  | _, chain loosest tightest first rest =>
      chain loosest tightest (relocate first) (relocate rest)
  | _, stop => stop
  | _, link op hop pos operand rest =>
      link op hop (f pos) (relocate operand) (relocate rest)
  | _, sign s pos operand => sign s (f pos) (relocate operand)
  | _, primary e => primary (relocate e)
  | _, identifier pos name => identifier (f pos) name
  | _, number pos digits => number (f pos) digits
  | _, string pos text => string (f pos) text
  | _, paren opening inner closing => paren (f opening) (relocate inner) (f closing)

theorem yield_relocate :
    {N : Nonterminal} → (d : Derivation N) →
      (d.relocate f).yield = d.yield.map (Token.relocate f)
  | _, plain e => yield_relocate e
  | _, assignment target pos value => by
      simp [relocate, yield, yield_relocate target, yield_relocate value, Token.relocate]
  | _, chain loosest tightest first rest => by
      simp [relocate, yield, yield_relocate first, yield_relocate rest]
  | _, stop => rfl
  | _, link op hop pos operand rest => by
      simp [relocate, yield, yield_relocate operand, yield_relocate rest, Token.relocate]
  | _, sign s pos operand => by
      simp [relocate, yield, yield_relocate operand, Token.relocate]
  | _, primary e => yield_relocate e
  | _, identifier pos name => rfl
  | _, number pos digits => rfl
  | _, string pos text => rfl
  | _, paren opening inner closing => by
      simp [relocate, yield, yield_relocate inner, Token.relocate]

end Derivation

/-- The one meaning is the other at other places. -/
def Relocates : (N : Nonterminal) → N.Meaning → N.Meaning → Prop
  | .level _, m, n => m = Node.relocate f n
  | .rest _, g, h => ∀ left : Node, g (left.relocate f) = Node.relocate f (h left)

theorem Derivation.relocates_meaning :
    {N : Nonterminal} → (d : Derivation N) → Relocates f N (d.relocate f).meaning d.meaning
  | _, plain e => relocates_meaning e
  | _, assignment target pos value => by
      have htarget : (target.relocate f).node = target.node.relocate f :=
        relocates_meaning target
      have hvalue : (value.relocate f).node = value.node.relocate f :=
        relocates_meaning value
      change ((assignment target pos value).relocate f).node =
        (assignment target pos value).node.relocate f
      simp [relocate, Node.relocate, htarget, hvalue]
  | _, chain loosest tightest first rest => by
      have hfirst : (first.relocate f).node = first.node.relocate f :=
        relocates_meaning first
      have hrest := relocates_meaning rest first.node
      rw [← hfirst] at hrest
      exact hrest
  | _, stop => fun _ => rfl
  | _, link op hop pos operand rest => by
      intro left
      have hoperand : (operand.relocate f).node = operand.node.relocate f :=
        relocates_meaning operand
      have hrest :=
        relocates_meaning rest
          (.operation op.family left.pos op.symbol pos left operand.node)
      rw [Node.relocate, ← hoperand, ← Node.pos_relocate f left] at hrest
      exact hrest
  | _, sign s pos operand => by
      have hoperand : (operand.relocate f).node = operand.node.relocate f :=
        relocates_meaning operand
      change ((sign s pos operand).relocate f).node = (sign s pos operand).node.relocate f
      simp [relocate, Node.relocate, hoperand]
  | _, primary e => relocates_meaning e
  | _, identifier pos name => by
      change _ = Node.relocate f (.identifier pos name)
      rw [Node.relocate]
      rfl
  | _, number pos digits => by
      change _ = Node.relocate f (.number pos _)
      rw [Node.relocate]
      rfl
  | _, string pos text => by
      change _ = Node.relocate f (.string pos text)
      rw [Node.relocate]
      rfl
  | _, paren opening inner closing => relocates_meaning inner

/-- The tree of the derivation at other places is the tree at other places. -/
theorem Derivation.node_relocate
    {l : Nat} (d : Derivation (.level l)) :
    (d.relocate f).node = d.node.relocate f := by
  exact relocates_meaning f d

namespace Statement

/-- The statement of the tokens at other places. -/
def relocate : Statement → Statement
  | unset keyword name namePos semicolon =>
      unset (f keyword) name (f namePos) (f semicolon)
  | set constant keyword name namePos equals value semicolon =>
      set constant (f keyword) name (f namePos) (f equals) (value.relocate f) (f semicolon)
  | expression e semicolon => expression (e.relocate f) (semicolon.map f)

theorem yield_relocate
    (s : Statement) :
    (s.relocate f).yield = s.yield.map (Token.relocate f) := by
  cases s with
  | unset keyword name namePos semicolon => rfl
  | set constant keyword name namePos equals value semicolon =>
      simp [relocate, yield, Derivation.yield_relocate, Token.relocate]
  | expression e semicolon =>
      cases semicolon with
      | none => simp [relocate, yield, Derivation.yield_relocate]
      | some pos => simp [relocate, yield, Derivation.yield_relocate, Token.relocate]

theorem node_relocate
    (s : Statement) :
    (s.relocate f).node = s.node.relocate f := by
  cases s with
  | unset keyword name namePos semicolon => simp [relocate, node, Node.relocate]
  | set constant keyword name namePos equals value semicolon =>
      simp [relocate, node, Node.relocate, Derivation.node_relocate]
  | expression e semicolon => simp [relocate, node, Derivation.node_relocate]

theorem isBare_relocate
    (s : Statement) :
    (s.relocate f).isBare = s.isBare := by
  cases s with
  | expression e semicolon => cases semicolon <;> rfl
  | _ => rfl

end Statement

namespace Program

/-- The program of the tokens at other places. -/
def relocate (p : Program) : Program :=
  p.map (Statement.relocate f)

theorem yield_relocate
    (p : Program) :
    (p.relocate f).yield = p.yield.map (Token.relocate f) := by
  induction p with
  | nil => rfl
  | cons s p ih =>
      change Program.yield (s.relocate f :: relocate f p) = _
      rw [yield_cons, yield_cons, ih, Statement.yield_relocate, List.map_append]

theorem nodes_relocate
    (p : Program) :
    (p.relocate f).nodes = p.nodes.map (Node.relocate f) := by
  induction p with
  | nil => rfl
  | cons s p ih =>
      change (s.relocate f).node :: nodes (relocate f p) =
        s.node.relocate f :: (nodes p).map (Node.relocate f)
      rw [ih, Statement.node_relocate]

theorem Settled.relocate
    {p : Program}
    (hp : p.Settled) :
    (p.relocate f).Settled := by
  refine (List.isChain_map _).mpr (List.IsChain.imp ?_ hp)
  intro s t hst hbare t' ht'
  rw [Statement.isBare_relocate] at hbare
  rw [Statement.yield_relocate, List.head?_map] at ht'
  obtain ⟨u, hu, rfl⟩ := Option.map_eq_some_iff.mp ht'
  exact hst hbare u hu

end Program

end Grammar
end LetLang
