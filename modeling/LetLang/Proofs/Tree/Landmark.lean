import LetLang.Proofs.Grammar.Reconstruction
import LetLang.Proofs.Tree.Subtrees

/-!
# The tree and the tokens it is read from

The landmarks of a tree are its names, literals and operators with their positions, from
left to right. The landmarks of a program are those of its tokens: every identifier,
number, string and operator token is found in the tree once, and in the same order. Only
the sign of assignment leaves no landmark, since the tree does not say where it stands.
Every node of the tree stands where one of its tokens does, and the operator of an
operation stands between the tokens of its operands.
-/

namespace LetLang

/-- Something that has a place both in a tree and in a text. -/
inductive Landmark
  | name (name : String) (pos : Pos)
  | number (x : Float) (pos : Pos)
  | string (text : String) (pos : Pos)
  | operator (symbol : String) (pos : Pos)

/-- The landmark that the token is in its text. Punctuation, keywords and the sign of
assignment are none. -/
def Token.landmark? (t : Token) : Option Landmark :=
  match t.lexeme with
  | .identifier name => some (.name name t.pos)
  | .number digits => some (.number (Decimal.read digits.toList) t.pos)
  | .string text => some (.string text t.pos)
  | .operator (.binary op) => some (.operator op.symbol t.pos)
  | .operator .not => some (.operator Operator.not.symbol t.pos)
  | _ => none

namespace Node

mutual

/-- The landmarks of the tree, from left to right. -/
@[simp] def landmarks : Node → List Landmark
  | program _ body => landmarksAll body
  | declaration _ name namePos _ none => [.name name namePos]
  | declaration _ name namePos _ (some value) => .name name namePos :: landmarks value
  | conditional _ _ condition block => landmarks condition ++ landmarksAll block
  | identifier pos name => [.name name pos]
  | number pos x => [.number x pos]
  | string pos text => [.string text pos]
  | operation _ _ symbol symbolPos left right =>
      landmarks left ++ .operator symbol symbolPos :: landmarks right
  | unary pos symbol operand => .operator symbol pos :: landmarks operand
  | assignment _ target value => landmarks target ++ landmarks value
  | unknown _ _ => []

/-- The landmarks of the trees, one after the other. -/
@[simp] def landmarksAll : List Node → List Landmark
  | [] => []
  | n :: ns => landmarks n ++ landmarksAll ns

end

/-- The node stands where the tokens say. -/
def Placed (ts : List Token) : Node → Prop
  | identifier pos name => ⟨.identifier name, pos⟩ ∈ ts
  | number pos x => ∃ digits, ⟨.number digits, pos⟩ ∈ ts ∧ x = Decimal.read digits.toList
  | string pos text => ⟨.string text, pos⟩ ∈ ts
  | unary pos symbol _ =>
      ∃ s : Grammar.Sign, symbol = s.operator.symbol ∧ ⟨.operator s.operator, pos⟩ ∈ ts
  | declaration pos name namePos constant _ =>
      [⟨.declare constant, pos⟩, ⟨.identifier name, namePos⟩] <:+: ts
  | operation family pos symbol symbolPos left right =>
      -- The operator stands between the tokens of its operands.
      pos = left.pos ∧
        ∃ (op : BinaryOp) (us vs : List Token),
          family = op.family ∧ symbol = op.symbol ∧
            us ++ ⟨.operator (.binary op), symbolPos⟩ :: vs <:+: ts ∧
          us.filterMap Token.landmark? = left.landmarks ∧
            vs.filterMap Token.landmark? = right.landmarks
  | assignment pos target _ => pos = target.pos
  | program _ _ | conditional _ _ _ _ | unknown _ _ => False

/-- The tree is read from the tokens `us`, which come one after the other among all
tokens `ts`. -/
structure Laid (ts us : List Token) (n : Node) : Prop where
  landmarks_eq : us.filterMap Token.landmark? = n.landmarks
  placed : ∀ m ∈ n.subtrees, m.Placed ts

namespace Laid

variable {ts us vs : List Token} {n left right : Node}

theorem identifier
    {pos : Pos} {name : String}
    (h : ⟨.identifier name, pos⟩ ∈ ts) :
    Laid ts [⟨.identifier name, pos⟩] (.identifier pos name) := by
  refine ⟨by rw [landmarks]; rfl, ?_⟩
  rw [subtrees]
  exact List.forall_mem_singleton.mpr h

theorem number
    {pos : Pos} {digits : String}
    (h : ⟨.number digits, pos⟩ ∈ ts) :
    Laid ts [⟨.number digits, pos⟩] (.number pos (Decimal.read digits.toList)) := by
  refine ⟨by rw [landmarks]; rfl, ?_⟩
  rw [subtrees]
  exact List.forall_mem_singleton.mpr ⟨digits, h, rfl⟩

theorem string
    {pos : Pos} {text : String}
    (h : ⟨.string text, pos⟩ ∈ ts) :
    Laid ts [⟨.string text, pos⟩] (.string pos text) := by
  refine ⟨by rw [landmarks]; rfl, ?_⟩
  rw [subtrees]
  exact List.forall_mem_singleton.mpr h

/-- Parentheses belong to the tokens of a tree and leave no trace in it. -/
theorem paren
    (opening closing : Pos)
    (h : Laid ts us n) :
    Laid ts (⟨.openParen, opening⟩ :: (us ++ [⟨.closeParen, closing⟩])) n := by
  refine ⟨?_, h.placed⟩
  rw [List.filterMap_cons_none rfl, List.filterMap_append, h.landmarks_eq,
    List.filterMap_cons_none rfl, List.filterMap_nil, List.append_nil]

theorem semicolon
    (pos : Pos)
    (h : Laid ts us n) :
    Laid ts (us ++ [⟨.semicolon, pos⟩]) n := by
  refine ⟨?_, h.placed⟩
  rw [List.filterMap_append, h.landmarks_eq, List.filterMap_cons_none rfl,
    List.filterMap_nil, List.append_nil]

theorem sign
    {s : Grammar.Sign} {pos : Pos}
    (hs : ⟨.operator s.operator, pos⟩ ∈ ts)
    (h : Laid ts us n) :
    Laid ts (⟨.operator s.operator, pos⟩ :: us) (.unary pos s.operator.symbol n) := by
  refine ⟨?_, ?_⟩
  · have hlandmark : Token.landmark? ⟨.operator s.operator, pos⟩ =
        some (.operator s.operator.symbol pos) := by
      cases s <;> rfl
    rw [landmarks, List.filterMap_cons_some hlandmark, h.landmarks_eq]
  · rw [subtrees]
    exact List.forall_mem_cons.mpr ⟨⟨s, rfl, hs⟩, h.placed⟩

theorem operation
    {op : BinaryOp} {pos : Pos}
    (hop : us ++ ⟨.operator (.binary op), pos⟩ :: vs <:+: ts)
    (hleft : Laid ts us left)
    (hright : Laid ts vs right) :
    Laid ts (us ++ ⟨.operator (.binary op), pos⟩ :: vs)
      (.operation op.family left.pos op.symbol pos left right) := by
  refine ⟨?_, ?_⟩
  · have hlandmark : Token.landmark? ⟨.operator (.binary op), pos⟩ =
        some (.operator op.symbol pos) := rfl
    rw [landmarks, List.filterMap_append, hleft.landmarks_eq,
      List.filterMap_cons_some hlandmark, hright.landmarks_eq]
  · rw [subtrees]
    have hself : Placed ts (.operation op.family left.pos op.symbol pos left right) :=
      ⟨rfl, op, us, vs, rfl, rfl, hop, hleft.landmarks_eq, hright.landmarks_eq⟩
    exact List.forall_mem_cons.mpr
      ⟨hself, List.forall_mem_append.mpr ⟨hleft.placed, hright.placed⟩⟩

theorem assignment
    (pos : Pos)
    (hleft : Laid ts us left)
    (hright : Laid ts vs right) :
    Laid ts (us ++ ⟨.operator .assign, pos⟩ :: vs) (.assignment left.pos left right) := by
  refine ⟨?_, ?_⟩
  · rw [landmarks, List.filterMap_append, hleft.landmarks_eq, List.filterMap_cons_none rfl,
      hright.landmarks_eq]
  · rw [subtrees]
    exact List.forall_mem_cons.mpr
      ⟨rfl, List.forall_mem_append.mpr ⟨hleft.placed, hright.placed⟩⟩

end Laid
end Node

namespace Grammar

open Node

/-- The tokens `us` are those of what a derivation means: of a tree, or of what is added to
the tree to its left. -/
def LaidMeaning (ts us : List Token) : (N : Nonterminal) → N.Meaning → Prop
  | .level _, n => us <:+: ts → Laid ts us n
  | .rest _, f =>
      ∀ (before : List Token) (left : Node), before ++ us <:+: ts → Laid ts before left →
      Laid ts (before ++ us) (f left)

section Derivations

variable {ts : List Token}

theorem Derivation.laid_meaning :
    {N : Nonterminal} → (d : Derivation N) → LaidMeaning ts d.yield N d.meaning
  | _, plain e => laid_meaning e
  | _, assignment target pos value => by
      intro h
      have htarget := laid_meaning target ((List.prefix_append _ _).isInfix.trans h)
      have hvalue :=
        laid_meaning value
          (((List.suffix_cons _ _).trans (List.suffix_append _ _)).isInfix.trans h)
      exact htarget.assignment pos hvalue
  | _, chain loosest tightest first rest => by
      intro h
      exact laid_meaning rest _ _ h
        (laid_meaning first ((List.prefix_append _ _).isInfix.trans h))
  | _, stop => by
      intro before left h hleft
      rw [yield, List.append_nil]
      exact hleft
  | _, link op hop pos operand rest => by
      intro before left h hleft
      have htokens : before ++ (link op hop pos operand rest).yield =
          before ++ ⟨.operator (.binary op), pos⟩ :: operand.yield ++ rest.yield := by
        rw [yield, List.append_assoc, List.cons_append]
      rw [htokens] at h ⊢
      have hinfix := (List.prefix_append _ _).isInfix.trans h
      have hoperand := laid_meaning operand
        (((List.suffix_cons _ _).trans (List.suffix_append _ _)).isInfix.trans hinfix)
      exact laid_meaning rest _ _ h (.operation hinfix hleft hoperand)
  | _, sign s pos operand => by
      intro h
      have hoperand := laid_meaning operand ((List.suffix_cons _ _).isInfix.trans h)
      exact hoperand.sign (h.subset List.mem_cons_self)
  | _, primary e => laid_meaning e
  | _, identifier pos name => fun h => .identifier (h.subset List.mem_cons_self)
  | _, number pos digits => fun h => .number (h.subset List.mem_cons_self)
  | _, string pos text => fun h => .string (h.subset List.mem_cons_self)
  | _, paren opening inner closing => by
      intro h
      have hinner :=
        laid_meaning inner
          (((List.prefix_append _ _).isInfix.trans (List.suffix_cons _ _).isInfix).trans h)
      exact hinner.paren opening closing

theorem Statement.laid
    (s : Statement)
    (h : s.yield <:+: ts) :
    Laid ts s.yield s.node := by
  cases s with
  | unset keyword name namePos semicolon =>
      refine ⟨by rw [node, landmarks]; rfl, ?_⟩
      rw [node, subtrees]
      have hplaced : Placed ts (.declaration keyword name namePos false none) :=
        (List.prefix_append [_, _] [_]).isInfix.trans h
      exact List.forall_mem_singleton.mpr hplaced
  | set constant keyword name namePos equals value semicolon =>
      have hvalue : Laid ts value.yield value.node := by
        refine value.laid_meaning (List.IsInfix.trans ?_ h)
        exact ⟨[_, _, _], [_], rfl⟩
      refine ⟨?_, ?_⟩
      · rw [node, landmarks, ← (hvalue.semicolon semicolon).landmarks_eq]
        rfl
      · rw [node, subtrees]
        have hplaced : Placed ts
            (.declaration keyword name namePos constant (some value.node)) :=
          (List.prefix_append [_, _] _).isInfix.trans h
        exact List.forall_mem_cons.mpr ⟨hplaced, hvalue.placed⟩
  | expression e semicolon =>
      cases semicolon with
      | none => exact e.laid_meaning h
      | some pos =>
          have he : Laid ts e.yield e.node :=
            e.laid_meaning ((List.prefix_append _ _).isInfix.trans h)
          exact he.semicolon pos

/-- The trees of a program are read from its tokens, one after the other. -/
theorem Program.laid
    (p : Program)
    (h : p.yield <:+: ts) :
    p.yield.filterMap Token.landmark? = landmarksAll p.nodes ∧
      ∀ n ∈ subtreesAll p.nodes, n.Placed ts := by
  induction p with
  | nil =>
      exact ⟨by rw [nodes, List.map_nil, landmarksAll]; rfl, by simp [nodes, subtreesAll]⟩
  | cons s p ih =>
      rw [yield_cons] at h ⊢
      have hs := s.laid ((List.prefix_append _ _).isInfix.trans h)
      obtain ⟨hlandmarks, hplaced⟩ := ih ((List.suffix_append _ _).isInfix.trans h)
      change _ = landmarksAll (s.node :: nodes p) ∧
        ∀ n ∈ subtreesAll (s.node :: nodes p), _
      rw [landmarksAll, subtreesAll, List.filterMap_append, hs.landmarks_eq, hlandmarks]
      exact ⟨rfl, List.forall_mem_append.mpr ⟨hs.placed, hplaced⟩⟩

end Derivations

/-- The trees of a program that is built are read from all its tokens. -/
theorem exists_laid_of_toProgram
    {stream : TokenStream} {program : Node}
    (h : stream.toProgram = .ok program) :
    ∃ body,
      program = .program .unknown body ∧
      stream.tokens.filterMap Token.landmark? = landmarksAll body ∧
      ∀ n ∈ subtreesAll body, n.Placed stream.tokens := by
  obtain ⟨p, _, hyield, rfl⟩ := exists_settled_of_toProgram h
  have hlaid := p.laid (List.infix_refl p.yield)
  rw [hyield] at hlaid
  exact ⟨p.nodes, rfl, hlaid⟩

end Grammar

/--
All nodes below a program stand where the tokens say, and its landmarks from left to right
are the identifiers, literals and operators among the tokens, except signs of assignment.
-/
theorem parse_places_nodes
    {source : String} {program : Node}
    (h : parse source = .ok program) :
    ∃ stream body,
      tokenize source = .ok stream ∧ program = .program ⟨0, 0⟩ body ∧
      (∀ n ∈ Node.subtreesAll body, n.Placed stream.tokens) ∧
      program.landmarks = stream.tokens.filterMap Token.landmark? := by
  cases htokens : tokenize source with
  | error fault =>
      rw [parse_of_tokenize_error htokens] at h
      cases h
  | ok stream =>
      rw [parse_of_tokenize htokens] at h
      obtain ⟨body, rfl, hlandmarks, hplaced⟩ := Grammar.exists_laid_of_toProgram h
      refine ⟨stream, body, rfl, rfl, hplaced, ?_⟩
      rw [Node.landmarks, hlandmarks]

/-- Parentheses leave no trace, and the operators stand between their operands. -/
theorem parse_places_nodes_parentheses :
    ∃ program,
      parse "let a = b = -(c + \"d\") == e;" = .ok program ∧
      program.landmarks =
        [.name "a" ⟨1, 5⟩, .name "b" ⟨1, 9⟩, .operator "-" ⟨1, 13⟩, .name "c" ⟨1, 15⟩,
          .operator "+" ⟨1, 17⟩, .string "d" ⟨1, 19⟩, .operator "==" ⟨1, 24⟩,
          .name "e" ⟨1, 27⟩] := by
  have htokens : tokenize "let a = b = -(c + \"d\") == e;" =
      .ok ⟨[⟨.declare false, ⟨1, 1⟩⟩, ⟨.identifier "a", ⟨1, 5⟩⟩,
        ⟨.operator .assign, ⟨1, 7⟩⟩, ⟨.identifier "b", ⟨1, 9⟩⟩,
        ⟨.operator .assign, ⟨1, 11⟩⟩, ⟨.operator (.binary (.arith .sub)), ⟨1, 13⟩⟩,
        ⟨.openParen, ⟨1, 14⟩⟩, ⟨.identifier "c", ⟨1, 15⟩⟩,
        ⟨.operator (.binary (.arith .add)), ⟨1, 17⟩⟩, ⟨.string "d", ⟨1, 19⟩⟩,
        ⟨.closeParen, ⟨1, 22⟩⟩, ⟨.operator (.binary (.logic .eq)), ⟨1, 24⟩⟩,
        ⟨.identifier "e", ⟨1, 27⟩⟩, ⟨.semicolon, ⟨1, 28⟩⟩], ⟨1, 29⟩⟩ := by
    decide +kernel
  obtain ⟨program, hprogram⟩ : ∃ program,
      parse "let a = b = -(c + \"d\") == e;" = .ok program :=
    ⟨_, (parse_of_tokenize htokens).trans rfl⟩
  obtain ⟨stream, body, hstream, _, _, hlandmarks⟩ := parse_places_nodes hprogram
  rw [htokens] at hstream
  cases hstream
  exact ⟨program, hprogram, hlandmarks⟩

end LetLang
