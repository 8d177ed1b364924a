import LetLang.Proofs.Grammar.Unambiguous
import LetLang.Proofs.Tree.Run

/-!
# What has been read is always part of a derivation

Every state of the builder stands for the tokens it has taken: the finished statements for
a settled program, the frames for the beginning of an expression, and the node after them
for a primary expression. One step keeps this, because filling a frame is one production of
the grammar. It follows that whatever the builder makes of a whole text is the syntax tree
of a settled derivation of its tokens.
-/

namespace LetLang
namespace Grammar

open Builder LetLang.Frame

theorem level_le_six
    (op : BinaryOp) :
    op.level ≤ 6 := by
  rcases op with op | op <;> cases op <;> decide

/-- The tokens are those of an expression of level `l`, which has that syntax tree. -/
def Spells (l : Nat) (n : Node) (ts : List Token) : Prop :=
  ∃ d : Derivation (.level l), d.node = n ∧ d.yield = ts

namespace Derivation

/-- A repeated part with one more operand at its end. -/
def snoc
    {l : Nat} :
    Derivation (.rest l) →
    (op : BinaryOp) → op.level = l → Pos → Derivation (.level (l + 1)) →
    Derivation (.rest l)
  | stop, op, hop, pos, operand => link op hop pos operand stop
  | link op' hop' pos' operand' rest, op, hop, pos, operand =>
      link op' hop' pos' operand' (snoc rest op hop pos operand)
termination_by rest => sizeOf rest
decreasing_by
  rw [link.sizeOf_spec]
  omega

theorem yield_snoc
    {l : Nat} (op : BinaryOp) (hop : op.level = l) (pos : Pos)
    (operand : Derivation (.level (l + 1))) :
    ∀ rest : Derivation (.rest l),
      (rest.snoc op hop pos operand).yield =
        rest.yield ++ ⟨.operator (.binary op), pos⟩ :: operand.yield
  | stop => by
      simp [snoc, yield]
  | link op' hop' pos' operand' rest => by
      simp [snoc, yield, yield_snoc op hop pos operand rest]

theorem extend_snoc
    {l : Nat} (op : BinaryOp) (hop : op.level = l) (pos : Pos)
    (operand : Derivation (.level (l + 1))) :
    ∀ (rest : Derivation (.rest l)) (left : Node),
      (rest.snoc op hop pos operand).extend left =
        .operation op.family (rest.extend left).pos op.symbol pos
          (rest.extend left) operand.node
  | stop, left => by
      simp [snoc]
  | link op' hop' pos' operand' rest, left => by
      simp [snoc, extend_snoc op hop pos operand rest]

end Derivation

namespace Spells

theorem loosen_one
    {l : Nat} {n : Node} {ts : List Token}
    (hl : l ≤ 7)
    (h : Spells (l + 1) n ts) :
    Spells l n ts := by
  obtain ⟨d, rfl, rfl⟩ := h
  rcases Nat.eq_zero_or_pos l with rfl | hpos
  · exact ⟨.plain d, rfl, rfl⟩
  · rcases Nat.lt_or_ge l 7 with hlt | hge
    · refine ⟨.chain hpos (by omega) d .stop, by simp, ?_⟩
      simp [Derivation.yield]
    · obtain rfl : l = 7 := by omega
      exact ⟨.primary d, rfl, rfl⟩

/-- An expression of a level is also one of every looser level. -/
theorem loosen
    {l k : Nat} {n : Node} {ts : List Token}
    (hlk : l ≤ k)
    (hk : k ≤ 8)
    (h : Spells k n ts) :
    Spells l n ts := by
  induction hlk with
  | refl => exact h
  | step _ ih => exact ih (by omega) (loosen_one (by omega) h)

theorem identifier
    (pos : Pos) (name : String) :
    Spells 8 (.identifier pos name) [⟨.identifier name, pos⟩] := by
  exact ⟨.identifier pos name, rfl, rfl⟩

theorem number
    (pos : Pos) (digits : String) :
    Spells 8 (.number pos (Decimal.read digits.toList)) [⟨.number digits, pos⟩] := by
  exact ⟨.number pos digits, rfl, rfl⟩

theorem string
    (pos : Pos) (text : String) :
    Spells 8 (.string pos text) [⟨.string text, pos⟩] := by
  exact ⟨.string pos text, rfl, rfl⟩

theorem paren
    {n : Node} {ts : List Token} (opening closing : Pos)
    (h : Spells 0 n ts) :
    Spells 8 n (⟨.openParen, opening⟩ :: (ts ++ [⟨.closeParen, closing⟩])) := by
  obtain ⟨d, rfl, rfl⟩ := h
  exact ⟨.paren opening d closing, rfl, rfl⟩

theorem sign
    {n : Node} {ts : List Token} (s : Sign) (pos : Pos)
    (h : Spells 7 n ts) :
    Spells 7 (.unary pos s.operator.symbol n) (⟨.operator s.operator, pos⟩ :: ts) := by
  obtain ⟨d, rfl, rfl⟩ := h
  exact ⟨.sign s pos d, rfl, rfl⟩

theorem binary
    {left right : Node} {ts us : List Token} (op : BinaryOp) (pos : Pos)
    (hleft : Spells op.level left ts)
    (hright : Spells (op.level + 1) right us) :
    Spells op.level (.operation op.family left.pos op.symbol pos left right)
      (ts ++ ⟨.operator (.binary op), pos⟩ :: us) := by
  obtain ⟨d, rfl, rfl⟩ := hleft
  obtain ⟨e, rfl, rfl⟩ := hright
  have hpos := op.level_pos
  have hsix := level_le_six op
  generalize hl : op.level = l at d e hpos hsix
  cases d with
  | plain => omega
  | assignment => omega
  | chain loosest tightest first rest =>
      refine ⟨.chain loosest tightest first (rest.snoc op hl pos e), ?_, ?_⟩
      · simp [Derivation.extend_snoc]
      · simp [Derivation.yield, Derivation.yield_snoc]
  | sign => omega
  | primary => omega
  | identifier => omega
  | number => omega
  | string => omega
  | paren => omega

theorem assign
    {target value : Node} {ts us : List Token} (pos : Pos)
    (htarget : Spells 1 target ts)
    (hvalue : Spells 0 value us) :
    Spells 0 (.assignment target.pos target value)
      (ts ++ ⟨.operator .assign, pos⟩ :: us) := by
  obtain ⟨d, rfl, rfl⟩ := htarget
  obtain ⟨e, rfl, rfl⟩ := hvalue
  exact ⟨.assignment d pos e, rfl, rfl⟩

end Spells

/-- The loosest level of a node that goes into the hole of a frame. -/
def slot : Frame → Nat
  | .paren => 0
  | .sign _ _ => 7
  | .binary op _ _ => op.level + 1
  | .assign _ => 0

/-- An expression of level `k` goes into the innermost frame. -/
def Admits (k : Nat) (fs : List Frame) : Prop :=
  ∀ f ∈ fs.head?, slot f ≤ k

/-- The innermost frame does not take what stands before an operator of level `l`. -/
def Blocks (l : Nat) (fs : List Frame) : Prop :=
  ∀ f ∈ fs.head?, f.takes l = false

theorem admits_seven
    (fs : List Frame) :
    Admits 7 fs := by
  intro f _
  cases f with
  | binary op pos left =>
      exact Nat.succ_le_succ (level_le_six op)
  | _ => simp [slot]

theorem Blocks.admits
    {l : Nat} {fs : List Frame}
    (h : Blocks l fs) :
    Admits l fs := by
  intro f hf
  have hf' := h f hf
  cases f with
  | paren => exact Nat.zero_le l
  | sign s pos => cases hf'
  | binary op pos left =>
      have hlevel := of_decide_eq_false hf'
      exact Nat.gt_of_not_le hlevel
  | assign target => exact Nat.zero_le l

theorem Blocks.admits_zero
    {fs : List Frame}
    (h : Blocks 1 fs) :
    Admits 0 fs := by
  intro f hf
  have hf' := h f hf
  cases f with
  | binary op pos left =>
      have hpos := op.level_pos
      simp only [takes, decide_eq_false_iff_not] at hf'
      omega
  | sign symbol pos => simp [takes] at hf'
  | _ => simp [slot]

/-- The frames stand for the tokens at the beginning of an unfinished expression. -/
inductive Holds : List Frame → List Token → Prop
  | nil :
      Holds [] []
  | paren
      {fs : List Frame} {ts : List Token} (pos : Pos) :
      Holds fs ts →
      Holds (.paren :: fs) (ts ++ [⟨.openParen, pos⟩])
  | sign
      {fs : List Frame} {ts : List Token} (s : Sign) (pos : Pos) :
      Holds fs ts →
      Holds (.sign s.operator.symbol pos :: fs) (ts ++ [⟨.operator s.operator, pos⟩])
  | binary
      {fs : List Frame} {ts us : List Token} {left : Node} (op : BinaryOp) (pos : Pos) :
      Holds fs ts →
      Blocks op.level fs →
      Spells op.level left us →
      Holds (.binary op pos left :: fs) (ts ++ us ++ [⟨.operator (.binary op), pos⟩])
  | assign
      {fs : List Frame} {ts us : List Token} {target : Node} (pos : Pos) :
      Holds fs ts →
      Blocks 1 fs →
      Spells 1 target us →
      Holds (.assign target :: fs) (ts ++ us ++ [⟨.operator .assign, pos⟩])

/-- Filling frames before an operator of level `l` makes an expression of that level and
moves no token. -/
def Closes (l : Nat) (fs : List Frame) (n : Node) (ts : List Token) : Prop :=
  ∃ us vs,
    Holds (close l fs n).1 us ∧ Blocks l (close l fs n).1 ∧
      Spells l (close l fs n).2 vs ∧ us ++ vs = ts

theorem Closes.of_takes
    {l : Nat} {f : Frame} {fs : List Frame} {n : Node} {ts : List Token}
    (htakes : f.takes l = true)
    (h : Closes l fs (f.fill n) ts) :
    Closes l (f :: fs) n ts := by
  unfold Closes
  rw [Frame.close, if_pos htakes]
  exact h

theorem Closes.of_not_takes
    {l : Nat} {f : Frame} {fs : List Frame} {n : Node} {us vs : List Token}
    (htakes : f.takes l = false)
    (hholds : Holds (f :: fs) us)
    (hspells : Spells l n vs) :
    Closes l (f :: fs) n (us ++ vs) := by
  unfold Closes
  rw [Frame.close, if_neg (ne_true_of_eq_false htakes)]
  refine ⟨us, vs, hholds, ?_, hspells, rfl⟩
  intro f' hf'
  obtain rfl := Option.some.inj hf'
  exact htakes

theorem Holds.close
    {fs : List Frame} {ts : List Token}
    (h : Holds fs ts) :
    ∀ {l k : Nat} {n : Node} {us : List Token},
      l ≤ 6 → l ≤ k → k ≤ 8 → Admits k fs → Spells k n us → Closes l fs n (ts ++ us) := by
  induction h with
  | nil =>
      intro l k n us hl hlk hk hadmits hspells
      exact ⟨[], us, .nil, by simp [Blocks, Frame.close], hspells.loosen hlk hk, rfl⟩
  | @paren fs ts pos hfs ih =>
      intro l k n us hl hlk hk hadmits hspells
      exact .of_not_takes rfl (.paren pos hfs) (hspells.loosen hlk hk)
  | @sign fs ts s pos hfs ih =>
      intro l k n us hl hlk hk hadmits hspells
      have hslot : 7 ≤ k := hadmits _ rfl
      have hunary := (hspells.loosen hslot hk).sign s pos
      have hclosed := ih hl (by omega : l ≤ 7) (by omega) (admits_seven fs) hunary
      refine .of_takes rfl ?_
      simpa [fill] using hclosed
  | @binary fs ts vs left op pos hfs hblocked hleft ih =>
      intro l k n us hl hlk hk hadmits hspells
      by_cases htakes : l ≤ op.level
      · have hslot : op.level + 1 ≤ k := hadmits _ rfl
        have hoperation := hleft.binary op pos (hspells.loosen hslot hk)
        have hclosed := ih hl htakes (by omega) hblocked.admits hoperation
        refine .of_takes (decide_eq_true htakes) ?_
        simpa [fill] using hclosed
      · exact .of_not_takes (decide_eq_false htakes)
          (.binary op pos hfs hblocked hleft) (hspells.loosen hlk hk)
  | @assign fs ts vs target pos hfs hblocked htarget ih =>
      intro l k n us hl hlk hk hadmits hspells
      by_cases htakes : l = 0
      · subst htakes
        have hassign := htarget.assign pos (hspells.loosen (Nat.zero_le k) hk)
        have hclosed := ih hl (Nat.le_refl 0) (by omega) hblocked.admits_zero hassign
        refine .of_takes rfl ?_
        simpa [fill] using hclosed
      · exact .of_not_takes (decide_eq_false htakes)
          (.assign pos hfs hblocked htarget) (hspells.loosen hlk hk)

/-- The tokens before the expression that is being read. -/
inductive Heads : Goal → List Token → Prop
  | statement :
      Heads .statement []
  | declaration
      (keyword : Pos) (name : String) (namePos : Pos) (constant : Bool) (equals : Pos) :
      Heads (.declaration keyword name namePos constant)
        [⟨.declare constant, keyword⟩, ⟨.identifier name, namePos⟩,
          ⟨.operator .assign, equals⟩]

/-- The tokens of the statement that is being read. -/
inductive Stands : Stage → List Token → Prop
  | ready :
      Stands .ready []
  | name
      (pos : Pos) (constant : Bool) :
      Stands (.name pos constant) [⟨.declare constant, pos⟩]
  | value
      (pos : Pos) (name : String) (namePos : Pos) (constant : Bool) :
      Stands (.value pos name namePos constant) [⟨.declare constant, pos⟩,
        ⟨.identifier name, namePos⟩]
  | operand
      {goal : Goal} {fs : List Frame} {gs ts : List Token} :
      Heads goal gs →
      Holds fs ts →
      Stands (.operand goal fs) (gs ++ ts)
  | operator
      {goal : Goal} {fs : List Frame} {n : Node} {gs ts us : List Token} :
      Heads goal gs →
      Holds fs ts →
      Spells 8 n us →
      Stands (.operator goal fs n) (gs ++ ts ++ us)

/-- If the program ends with a bare expression, the tokens after it begin with something
else than a minus sign. -/
def Opens (p : Program) (us : List Token) : Prop :=
  ∀ s ∈ p.getLast?, s.isBare = true → ∃ t ∈ us.head?, isMinus t = false

/-- The builder stands for the tokens: those of a settled program, and then those of
its stage. -/
def Reads (b : Builder) (ts : List Token) : Prop :=
  ∃ (p : Program) (us : List Token),
    ts = p.yield ++ us ∧ b.finished = p.nodes.reverse ∧ p.Settled ∧
      Opens p us ∧ Stands b.stage us

theorem reads_start :
    Reads .start [] := by
  exact ⟨[], [], rfl, rfl, .nil, by simp [Opens], .ready⟩

theorem Opens.append
    {p : Program} {us : List Token}
    (h : Opens p us)
    (vs : List Token) :
    Opens p (us ++ vs) := by
  intro s hs hbare
  obtain ⟨t, ht, hminus⟩ := h s hs hbare
  refine ⟨t, ?_, hminus⟩
  cases us with
  | nil => simp at ht
  | cons u us => simpa using ht

/-- A statement that begins with the tokens after a settled program goes on with
the program. -/
theorem Opens.settled
    {p : Program} {us vs : List Token} {s : Statement}
    (h : Opens p us)
    (hp : p.Settled)
    (hs : s.yield = us ++ vs) :
    Program.Settled (p ++ [s]) := by
  refine List.isChain_append.mpr ⟨hp, List.isChain_singleton s, ?_⟩
  intro last hlast s' hs' hbare t ht
  simp only [List.head?_cons, Option.mem_def, Option.some.injEq] at hs'
  subst hs'
  obtain ⟨t', ht', hminus⟩ := h.append vs last hlast hbare
  rw [hs] at ht
  obtain rfl : t' = t := Option.mem_unique ht' ht
  exact hminus

/-- A token that begins an operand. -/
theorem stands_operand
    {goal : Goal} {fs : List Frame} {gs ts : List Token} {t : Token} {stage : Stage}
    (hgoal : Heads goal gs)
    (hfs : Holds fs ts)
    (h : operand goal fs t = .ok stage) :
    Stands stage (gs ++ ts ++ [t]) := by
  obtain ⟨lexeme, pos⟩ := t
  unfold operand at h
  split at h
  · rename_i name hlexeme
    cases hlexeme
    cases h
    exact .operator hgoal hfs (.identifier pos name)
  · rename_i digits hlexeme
    cases hlexeme
    cases h
    exact .operator hgoal hfs (.number pos digits)
  · rename_i text hlexeme
    cases hlexeme
    cases h
    exact .operator hgoal hfs (.string pos text)
  · rename_i hlexeme
    cases hlexeme
    cases h
    rw [List.append_assoc]
    exact .operand hgoal (.paren pos hfs)
  · rename_i hlexeme
    cases hlexeme
    cases h
    rw [List.append_assoc]
    exact .operand hgoal (.sign .not pos hfs)
  · rename_i hlexeme
    cases hlexeme
    cases h
    rw [List.append_assoc]
    exact .operand hgoal (.sign .minus pos hfs)
  · cases h

/-- A token that begins a statement. -/
theorem stands_begin
    {t : Token} {stage : Stage}
    (h : begin t = .ok stage) :
    Stands stage [t] := by
  obtain ⟨lexeme, pos⟩ := t
  unfold begin at h
  split at h
  · rename_i constant hlexeme
    cases hlexeme
    cases h
    exact .name pos constant
  · cases h
  · exact stands_operand .statement .nil h

section Steps

variable {finished : List Node} {p : Program} {us : List Token} {t : Token} {b' : Builder}
variable (hfinished : finished = p.nodes.reverse) (hp : p.Settled) (hopens : Opens p us)
include hfinished hp hopens

/-- A stage that stands for one more token. -/
theorem reads_stage
    {stage : Stage}
    (h : Stands stage (us ++ [t])) :
    Reads ⟨finished, stage⟩ (p.yield ++ us ++ [t]) := by
  exact ⟨p, us ++ [t], by simp, hfinished, hp, hopens.append [t], h⟩

/-- A statement that ends at a semicolon leaves the builder ready. -/
theorem reads_ended
    {s : Statement}
    (hs : s.yield = us ++ [t])
    (hbare : s.isBare = false) :
    Reads ⟨s.node :: finished, .ready⟩ (p.yield ++ us ++ [t]) := by
  refine ⟨p ++ [s], [], ?_, ?_, hopens.settled hp hs, ?_, .ready⟩
  · simp [hs]
  · simp [hfinished, Program.nodes]
  · intro last hlast hlast'
    simp only [List.getLast?_append, List.getLast?_singleton,
      Option.some_or, Option.mem_def, Option.some.injEq] at hlast
    subst hlast
    rw [hbare] at hlast'
    cases hlast'

theorem reads_initializer
    {keyword : Pos} {name : String} {namePos : Pos} {constant : Bool}
    (hus : us = [⟨.declare constant, keyword⟩, ⟨.identifier name, namePos⟩])
    (h : initializer ⟨finished, .value keyword name namePos constant⟩ keyword name
      namePos constant t = .ok b') :
    Reads b' (p.yield ++ us ++ [t]) := by
  obtain ⟨lexeme, pos⟩ := t
  unfold initializer at h
  split at h
  · rename_i hlexeme
    cases hlexeme
    cases h
    subst hus
    exact reads_ended (s := .unset keyword name namePos pos) hfinished hp hopens rfl rfl
  · cases h
  · rename_i hlexeme
    cases hlexeme
    cases h
    subst hus
    refine reads_stage hfinished hp hopens ?_
    simpa using Stands.operand (.declaration keyword name namePos _ pos) .nil
  · cases h

/-- The end of an expression, after all frames within the innermost parenthesis
are filled. -/
theorem reads_conclude
    {goal : Goal} {stage : Stage} {fs : List Frame} {n : Node} {gs ts vs : List Token}
    (hus : us = gs ++ (ts ++ vs))
    (hgoal : Heads goal gs)
    (hfs : Holds fs ts)
    (hblocks : Blocks 0 fs)
    (hn : Spells 0 n vs)
    (hminus : isMinus t = false)
    (h : conclude ⟨finished, stage⟩ goal t fs n = .ok b') :
    Reads b' (p.yield ++ us ++ [t]) := by
  obtain ⟨lexeme, pos⟩ := t
  cases hfs with
  | paren opening hfs =>
      simp only [conclude] at h
      split at h
      · cases h
        refine reads_stage hfinished hp hopens ?_
        have hparen := Stands.operator hgoal hfs (hn.paren opening pos)
        subst hus
        simpa using hparen
      · cases h
  | sign s mark hfs =>
      have htakes := hblocks _ rfl
      simp [takes] at htakes
  | binary op mark hfs hblocked hleft =>
      have htakes := hblocks _ rfl
      simp [takes] at htakes
  | assign mark hfs hblocked htarget =>
      have htakes := hblocks _ rfl
      simp [takes] at htakes
  | nil =>
      obtain ⟨d, rfl, rfl⟩ := hn
      simp only [conclude] at h
      split at h
      · cases h
        cases hgoal with
        | statement =>
            have hyield : (Statement.expression d (some pos)).yield =
                us ++ [⟨.semicolon, pos⟩] := by
              simp [Statement.yield, hus]
            exact reads_ended hfinished hp hopens hyield rfl
        | declaration keyword name namePos constant equals =>
            have hyield :
                (Statement.set constant keyword name namePos equals d pos).yield =
                  us ++ [⟨.semicolon, pos⟩] := by
              simp [Statement.yield, hus]
            exact reads_ended hfinished hp hopens hyield rfl
      · obtain ⟨next, hbegin, rfl⟩ := exists_of_map_eq_ok h
        cases hgoal with
        | statement =>
            have hyield : (Statement.expression d none).yield = us ++ [] := by
              simp [Statement.yield, hus]
            refine ⟨p ++ [.expression d none], [⟨lexeme, pos⟩], ?_, ?_,
              hopens.settled hp hyield, ?_, stands_begin hbegin⟩
            · simp [hyield]
            · simp [hfinished, Program.nodes, Statement.node]
            · intro s _ _
              exact ⟨_, rfl, hminus⟩
      · cases h

/-- A token after an operand. -/
theorem reads_follow
    {goal : Goal} {fs : List Frame} {n : Node}
    (hstands : Stands (.operator goal fs n) us)
    (h : follow ⟨finished, .operator goal fs n⟩ goal fs n t = .ok b') :
    Reads b' (p.yield ++ us ++ [t]) := by
  obtain ⟨lexeme, pos⟩ := t
  cases hstands with
  | @operator _ _ _ gs ts vs hgoal hfs hn =>
      have hadmits : Admits 8 fs := fun f hf => Nat.le_succ_of_le (admits_seven fs f hf)
      unfold follow at h
      split at h
      · rename_i op hlexeme
        cases hlexeme
        cases h
        obtain ⟨ts', vs', hfs', hblocks, hn', heq⟩ :=
          hfs.close (level_le_six op) (Nat.le_trans (level_le_six op) (by omega))
            (Nat.le_refl 8) hadmits hn
        refine reads_stage hfinished hp hopens ?_
        have hoperand := Stands.operand hgoal (Holds.binary op pos hfs' hblocks hn')
        rw [heq] at hoperand
        simpa using hoperand
      · rename_i hlexeme
        cases hlexeme
        cases h
        obtain ⟨ts', vs', hfs', hblocks, hn', heq⟩ :=
          hfs.close (by omega : 1 ≤ 6) (by omega) (Nat.le_refl 8) hadmits hn
        refine reads_stage hfinished hp hopens ?_
        have hoperand := Stands.operand hgoal (Holds.assign pos hfs' hblocks hn')
        rw [heq] at hoperand
        simpa using hoperand
      · rename_i hbinary _
        obtain ⟨ts', vs', hfs', hblocks, hn', heq⟩ :=
          hfs.close (Nat.zero_le 6) (Nat.zero_le 8) (Nat.le_refl 8) hadmits hn
        refine reads_conclude hfinished hp hopens ?_ hgoal hfs' hblocks hn' ?_ h
        · rw [heq]
          simp
        · cases hminus : isMinus ⟨lexeme, pos⟩ with
          | false => rfl
          | true =>
              have hlexeme : lexeme = .operator Sign.minus.operator := by
                simpa [isMinus] using hminus
              exact absurd hlexeme (hbinary (.arith .sub))

end Steps

/-- One step keeps the correspondence. -/
theorem Reads.step
    {b b' : Builder} {ts : List Token} {t : Token}
    (h : Reads b ts)
    (hstep : b.step t = .ok b') :
    Reads b' (ts ++ [t]) := by
  obtain ⟨finished, stage⟩ := b
  obtain ⟨p, us, rfl, hfinished, hp, hopens, hstands⟩ := h
  cases stage with
  | ready =>
      obtain ⟨next, hbegin, rfl⟩ := exists_of_map_eq_ok hstep
      cases hstands
      exact reads_stage hfinished hp hopens (stands_begin hbegin)
  | name pos constant =>
      cases hstands
      obtain ⟨lexeme, namePos⟩ := t
      simp only [Builder.step] at hstep
      split at hstep
      · rename_i name
        cases hstep
        exact reads_stage hfinished hp hopens (.value pos name namePos constant)
      · cases hstep
  | value pos name namePos constant =>
      cases hstands
      exact reads_initializer hfinished hp hopens rfl hstep
  | operand goal fs =>
      cases hstands with
      | operand hgoal hfs =>
          obtain ⟨next, hoperand, rfl⟩ := exists_of_map_eq_ok hstep
          exact reads_stage hfinished hp hopens (stands_operand hgoal hfs hoperand)
  | operator goal fs n =>
      exact reads_follow hfinished hp hopens hstands hstep

/-- A run keeps the correspondence. -/
theorem Reads.run
    {b b' : Builder} {ts us : List Token}
    (h : Reads b ts)
    (hrun : b.run us = .ok b') :
    Reads b' (ts ++ us) := by
  induction us generalizing b ts with
  | nil =>
      cases hrun
      simpa using h
  | cons u us ih =>
      rw [run_cons] at hrun
      obtain ⟨next, hstep, hrest⟩ := exists_of_bind_eq_ok hrun
      simpa using ih (h.step hstep) hrest

/-- What the builder makes of a whole text belongs to a settled derivation. -/
theorem Reads.finish
    {b : Builder} {ts : List Token} {pos : Pos} {body : List Node}
    (h : Reads b ts)
    (hfinish : b.finish pos = .ok body) :
    ∃ p : Program, p.Settled ∧ p.yield = ts ∧ p.nodes = body := by
  obtain ⟨finished, stage⟩ := b
  obtain ⟨p, us, rfl, hfinished, hp, hopens, hstands⟩ := h
  simp only at hfinished
  cases hstands with
  | ready =>
      cases hfinish
      exact ⟨p, hp, by simp, by simp [hfinished]⟩
  | name mark constant => cases hfinish
  | value mark name namePos constant => cases hfinish
  | operand hgoal hfs => cases hfinish
  | @operator goal fs n gs ts vs hgoal hfs hn =>
      have hadmits : Admits 8 fs := fun f hf => Nat.le_succ_of_le (admits_seven fs f hf)
      obtain ⟨ts', vs', hfs', hblocks, hn', heq⟩ :=
        hfs.close (Nat.zero_le 6) (Nat.zero_le 8) (Nat.le_refl 8) hadmits hn
      simp only [Builder.finish] at hfinish
      split at hfinish
      · cases hfinish
      · rename_i whole hclose
        rw [hclose] at hfs' hn'
        cases hfinish
        cases hfs'
        cases hgoal
        obtain ⟨d, rfl, rfl⟩ := hn'
        have hyield : (Statement.expression d none).yield = [] ++ ts ++ vs ++ [] := by
          simpa [Statement.yield] using heq
        refine ⟨p ++ [.expression d none], hopens.settled hp hyield, ?_, ?_⟩
        · simp [hyield]
        · simp [hfinished, Program.nodes, Statement.node]
      · cases hfinish

/-- Every program that is built is that of a settled derivation of its tokens. -/
theorem exists_settled_of_toProgram
    {stream : TokenStream} {program : Node}
    (h : stream.toProgram = .ok program) :
    ∃ p : Program, p.Settled ∧ p.yield = stream.tokens ∧
      program = .program .unknown p.nodes := by
  obtain ⟨b, body, hrun, hfinish, rfl⟩ := (stream.toProgram_eq_ok_iff program).mp h
  obtain ⟨p, hp, hyield, rfl⟩ := (reads_start.run hrun).finish hfinish
  exact ⟨p, hp, hyield, rfl⟩

end Grammar
end LetLang
