import LetLang.Proofs.Descent.Routine
import LetLang.Proofs.Grammar.Reconstruction

/-!
# What the builder makes of the tokens that are left

The builder keeps its unfinished expressions on a list of frames, and the next token
decides how many of them are filled. `Builder.complete` is what comes of a state of the
builder and the tokens that are left. For every kind of token there is a lemma here that
replaces the state and the tokens by a state and tokens that come to the same: a token is
taken, a frame is filled, or the whole is refused.
-/

namespace LetLang

namespace Lexeme

/-- The lexeme goes on with an expression of that level. -/
def Extends (n : Nat) : Lexeme → Prop
  | .operator (.binary op) => n ≤ op.level
  | .operator .assign => n = 0
  | _ => False

/-- The level with which the builder fills frames before the lexeme. -/
def closing : Lexeme → Nat
  | .operator (.binary op) => op.level
  | .operator .assign => 1
  | _ => 0

/-- The lexeme begins an operand without a sign. -/
def isPrimary : Lexeme → Bool
  | .identifier _ | .number _ | .string _ | .openParen => true
  | _ => false

/-- Only operators go on with an expression. -/
theorem Extends.eq_operator
    {n : Nat} {lexeme : Lexeme}
    (h : lexeme.Extends n) :
    (∃ op : BinaryOp, lexeme = .operator (.binary op) ∧ n ≤ op.level) ∨
      lexeme = .operator .assign ∧ n = 0 := by
  unfold Extends at h
  split at h
  · exact Or.inl ⟨_, rfl, h⟩
  · exact Or.inr ⟨rfl, h⟩
  · exact absurd h not_false

theorem Extends.mono
    {n k : Nat} {lexeme : Lexeme}
    (hle : n ≤ k)
    (h : lexeme.Extends k) :
    lexeme.Extends n := by
  rcases h.eq_operator with ⟨op, rfl, hop⟩ | ⟨rfl, rfl⟩
  · exact Nat.le_trans hle hop
  · exact Nat.le_zero.mp hle

/-- Nothing binds more tightly than the operators of level six. -/
theorem not_extends_of_six_lt
    {n : Nat} {lexeme : Lexeme}
    (hn : 6 < n) :
    ¬ lexeme.Extends n := by
  intro h
  rcases h.eq_operator with ⟨op, _, hop⟩ | ⟨_, hzero⟩
  · have hle := Grammar.level_le_six op
    omega
  · omega

theorem closing_of_not_extends
    {lexeme : Lexeme}
    (h : ¬ lexeme.Extends 0) :
    lexeme.closing = 0 := by
  unfold Extends at h
  unfold closing
  split
  · exact absurd (Nat.zero_le _) h
  · exact absurd rfl h
  · rfl

end Lexeme

/-- What comes first of the tokens does not go on with an expression of that level. -/
def Apart (n : Nat) (ts : List Token) : Prop :=
  ∀ t ∈ ts.head?, ¬ t.lexeme.Extends n

namespace Frame

/-- The innermost frame stays open before everything that goes on with an expression of
that level. -/
def Waits (n : Nat) (frames : List Frame) : Prop :=
  ∀ f ∈ frames.head?, ∀ lexeme : Lexeme, lexeme.Extends n → f.takes lexeme.closing = false

theorem Waits.close_eq
    {n : Nat} {frames : List Frame} {lexeme : Lexeme}
    (h : Waits n frames)
    (hextends : lexeme.Extends n)
    (node : Node) :
    close lexeme.closing frames node = (frames, node) := by
  cases frames with
  | nil => rfl
  | cons f frames => rw [close, h f rfl lexeme hextends, if_neg Bool.false_ne_true]

theorem Waits.mono
    {n k : Nat} {frames : List Frame}
    (hle : n ≤ k)
    (h : Waits n frames) :
    Waits k frames := by
  intro f hf lexeme hextends
  exact h f hf lexeme (hextends.mono hle)

theorem waits_nil
    (n : Nat) :
    Waits n [] := by
  intro f hf
  cases hf

theorem waits_paren
    (n : Nat) (frames : List Frame) :
    Waits n (paren :: frames) := by
  rintro f hf lexeme -
  cases hf
  rfl

theorem waits_assign
    (target : Node) (frames : List Frame) :
    Waits 0 (assign target :: frames) := by
  intro f hf lexeme hextends
  cases hf
  rcases hextends.eq_operator with ⟨op, rfl, _⟩ | ⟨rfl, _⟩
  · exact decide_eq_false (Nat.ne_of_gt op.level_pos)
  · rfl

theorem waits_binary
    (op : BinaryOp) (pos : Pos) (left : Node) (frames : List Frame) :
    Waits (op.level + 1) (binary op pos left :: frames) := by
  intro f hf lexeme hextends
  cases hf
  rcases hextends.eq_operator with ⟨op', rfl, hlt⟩ | ⟨_, hzero⟩
  · exact decide_eq_false (Nat.not_le_of_gt hlt)
  · cases hzero

/-- Nothing goes on with an operand that has its signs. -/
theorem waits_of_six_lt
    {n : Nat}
    (hn : 6 < n)
    (frames : List Frame) :
    Waits n frames := by
  intro _ _ lexeme hextends
  exact absurd hextends (Lexeme.not_extends_of_six_lt hn)

/-- A frame of an operator takes the operand before everything that does not bind
more tightly. -/
theorem takes_binary
    {op : BinaryOp} {lexeme : Lexeme} (pos : Pos) (left : Node)
    (h : ¬ lexeme.Extends (op.level + 1)) :
    (binary op pos left).takes lexeme.closing = true := by
  unfold Lexeme.Extends at h
  unfold Lexeme.closing
  split
  · simp only [takes, decide_eq_true_eq]
    simp only at h
    omega
  · simp only [takes, decide_eq_true_eq]
    exact op.level_pos
  · rfl

theorem takes_assign
    {lexeme : Lexeme} (target : Node)
    (h : ¬ lexeme.Extends 0) :
    (assign target).takes lexeme.closing = true := by
  rw [Lexeme.closing_of_not_extends h]
  rfl

end Frame

namespace Builder

/-- What the builder makes of the tokens that are left. -/
def complete (finish : Pos) (b : Builder) (ts : List Token) : Except Fault (List Node) :=
  (b.run ts).bind fun last => last.finish finish

theorem complete_nil
    (finish : Pos) (b : Builder) :
    b.complete finish [] = b.finish finish := by
  rfl

theorem complete_cons
    (finish : Pos) (b : Builder) (t : Token) (ts : List Token) :
    b.complete finish (t :: ts) = (b.step t).bind fun next => next.complete finish ts := by
  rw [complete, run_cons]
  cases b.step t with
  | error fault => rfl
  | ok next => rfl

/-- What a token does after an operand depends on the frames that are left open
before it. -/
theorem step_congr
    {t : Token} {frames frames' : List Frame} {node node' : Node}
    (done : List Node) (goal : Goal)
    (h : Frame.close t.lexeme.closing frames node =
      Frame.close t.lexeme.closing frames' node') :
    step ⟨done, .operator goal frames node⟩ t =
      step ⟨done, .operator goal frames' node'⟩ t := by
  cases hlexeme : t.lexeme with
  | operator op =>
      cases op with
      | binary op =>
          simp only [hlexeme, Lexeme.closing] at h
          simp only [step, follow, hlexeme, h]
      | assign =>
          simp only [hlexeme, Lexeme.closing] at h
          simp only [step, follow, hlexeme, h]
      | not =>
          simp only [hlexeme, Lexeme.closing] at h
          simp only [step, follow, hlexeme, h]
          rfl
  | _ =>
      simp only [hlexeme, Lexeme.closing] at h
      simp only [step, follow, hlexeme, h]
      rfl

/-- A frame is filled before everything that it takes the node before. -/
theorem complete_fill
    {f : Frame} {ts : List Token} (finish : Pos) (done : List Node) (goal : Goal)
    (frames : List Frame) (node : Node)
    (hend : f.takes 0 = true)
    (h : ∀ t ∈ ts.head?, f.takes t.lexeme.closing = true) :
    complete finish ⟨done, .operator goal (f :: frames) node⟩ ts =
      complete finish ⟨done, .operator goal frames (f.fill node)⟩ ts := by
  cases ts with
  | nil =>
      rw [complete_nil, complete_nil]
      simp only [Builder.finish, Frame.close, hend, if_true]
  | cons t ts =>
      have hclose : Frame.close t.lexeme.closing (f :: frames) node =
          Frame.close t.lexeme.closing frames (f.fill node) := by
        rw [Frame.close, if_pos (h t rfl)]
      rw [complete_cons, complete_cons, step_congr done goal hclose]

section Expressions

variable (finish : Pos) (done : List Node) (goal : Goal)
    {frames : List Frame} (node : Node)

theorem complete_binary
    {op : BinaryOp}
    (h : Frame.Waits op.level frames)
    (pos : Pos) (ts : List Token) :
    complete finish ⟨done, .operator goal frames node⟩
      (⟨.operator (.binary op), pos⟩ :: ts) =
      complete finish ⟨done, .operand goal (.binary op pos node :: frames)⟩ ts := by
  have hclose : Frame.close op.level frames node = (frames, node) :=
    h.close_eq
      (show (Lexeme.operator (.binary op)).Extends op.level from Nat.le_refl _) node
  rw [complete_cons]
  simp only [step, follow, hclose]
  rfl

theorem complete_assign
    (h : Frame.Waits 0 frames)
    (pos : Pos) (ts : List Token) :
    complete finish ⟨done, .operator goal frames node⟩ (⟨.operator .assign, pos⟩ :: ts) =
      complete finish ⟨done, .operand goal (.assign node :: frames)⟩ ts := by
  have hclose : Frame.close 1 frames node = (frames, node) :=
    h.close_eq (show (Lexeme.operator .assign).Extends 0 from rfl) node
  rw [complete_cons]
  simp only [step, follow, hclose]
  rfl

theorem complete_sign
    {op : Operator}
    (h : op.isSign = true)
    (pos : Pos) (ts : List Token) :
    complete finish ⟨done, .operand goal frames⟩ (⟨.operator op, pos⟩ :: ts) =
      complete finish ⟨done, .operand goal (.sign op.symbol pos :: frames)⟩ ts := by
  unfold Operator.isSign at h
  split at h
  · rfl
  · rfl
  · cases h

/-- What does not go on with an expression is read after all frames down to a parenthesis
have been filled. -/
theorem step_of_not_extends
    {t : Token} {rest : List Frame} {closed : Node}
    (hclose : Frame.close 0 frames node = (rest, closed))
    (h : ¬ t.lexeme.Extends 0) :
    step ⟨done, .operator goal frames node⟩ t =
      conclude ⟨done, .ready⟩ goal t rest closed := by
  simp only [step, follow, hclose]
  split
  · rename_i op hlexeme
    rw [hlexeme] at h
    exact absurd (Nat.zero_le op.level) h
  · rename_i hlexeme
    rw [hlexeme] at h
    exact absurd rfl h
  · rfl

end Expressions

section Refusals

variable (s : TokenStream) (done : List Node) {ts : List Token}

theorem complete_operand_refused
    (goal : Goal) (frames : List Frame)
    (hprimary : ∀ t ∈ ts.head?, t.lexeme.isPrimary = false)
    (hsign : ∀ t ∈ ts.head?, ∀ op, t.lexeme = .operator op → op.isSign = false) :
    complete s.finish ⟨done, .operand goal frames⟩ ts =
      .error (s.fault .unexpectedToken ts.head?) := by
  cases ts with
  | nil => rfl
  | cons t ts =>
      have hne := hprimary t rfl
      have hop := hsign t rfl
      rw [complete_cons]
      simp only [step, operand]
      split
      case h_7 => rfl
      all_goals simp_all [Lexeme.isPrimary, Operator.isSign]

theorem complete_paren_refused
    (goal : Goal) (frames : List Frame) (node : Node)
    (hapart : Apart 0 ts)
    (h : ∀ t ∈ ts.head?, t.lexeme ≠ .closeParen) :
    complete s.finish ⟨done, .operator goal (.paren :: frames) node⟩ ts =
      .error (s.fault .expectedClosing ts.head?) := by
  cases ts with
  | nil => rfl
  | cons t ts =>
      have hclose : Frame.close 0 (.paren :: frames) node = (.paren :: frames, node) := rfl
      rw [complete_cons, step_of_not_extends done goal node hclose (hapart t rfl)]
      simp only [conclude]
      split
      · rename_i hlexeme
        exact absurd hlexeme (h t rfl)
      · rfl

theorem complete_name_refused
    (pos : Pos) (constant : Bool)
    (h : ∀ t ∈ ts.head?, t.lexeme.isIdentifier = false) :
    complete s.finish ⟨done, .name pos constant⟩ ts =
      .error (s.fault (.expectedName (keyword constant)) ts.head?) := by
  cases ts with
  | nil => rfl
  | cons t ts =>
      have hne := h t rfl
      rw [complete_cons]
      simp only [step]
      split
      · rename_i hlexeme
        rw [hlexeme] at hne
        cases hne
      · rfl

theorem complete_value_refused
    (pos : Pos) (name : String) (namePos : Pos) (constant : Bool)
    (hsemicolon : ∀ t ∈ ts.head?, t.lexeme ≠ .semicolon)
    (hassign : ∀ t ∈ ts.head?, t.lexeme ≠ .operator .assign) :
    complete s.finish ⟨done, .value pos name namePos constant⟩ ts =
      .error (s.fault .expectedValue ts.head?) := by
  cases ts with
  | nil => rfl
  | cons t ts =>
      rw [complete_cons]
      simp only [step, initializer]
      split
      · rename_i hlexeme
        exact absurd hlexeme (hsemicolon t rfl)
      · rename_i hlexeme
        exact absurd hlexeme (hsemicolon t rfl)
      · rename_i hlexeme
        exact absurd hlexeme (hassign t rfl)
      · rfl

theorem complete_semicolon_refused
    (pos : Pos) (name : String) (namePos : Pos) (constant : Bool) (node : Node)
    (hapart : Apart 0 ts)
    (h : ∀ t ∈ ts.head?, t.lexeme ≠ .semicolon) :
    complete s.finish
        ⟨done, .operator (.declaration pos name namePos constant) [] node⟩ ts =
      .error (s.fault .expectedSemicolon ts.head?) := by
  cases ts with
  | nil => rfl
  | cons t ts =>
      have hclose : Frame.close 0 [] node = ([], node) := rfl
      rw [complete_cons, step_of_not_extends done _ node hclose (hapart t rfl)]
      simp only [conclude]
      split
      · rename_i hlexeme
        exact absurd hlexeme (h t rfl)
      · rename_i hgoal _
        cases hgoal
      · rfl

end Refusals

/-- After an expression that is a statement, the next statement is read as after
any other. -/
theorem complete_statement
    {ts : List Token} (finish : Pos) (done : List Node) (node : Node)
    (hapart : Apart 0 ts)
    (h : ∀ t ∈ ts.head?, t.lexeme ≠ .semicolon) :
    complete finish ⟨done, .operator .statement [] node⟩ ts =
      complete finish ⟨node :: done, .ready⟩ ts := by
  cases ts with
  | nil => rfl
  | cons t ts =>
      have hclose : Frame.close 0 [] node = ([], node) := rfl
      rw [complete_cons, complete_cons,
        step_of_not_extends done _ node hclose (hapart t rfl)]
      simp only [conclude, step]
      split
      · rename_i hlexeme
        exact absurd hlexeme (h t rfl)
      · rfl
      · rename_i hgoal _
        cases hgoal

/-- A statement that is no declaration is read as an expression. -/
theorem complete_ready
    {t : Token} (finish : Pos) (done : List Node) (ts : List Token)
    (hdeclare : ∀ constant, t.lexeme ≠ .declare constant)
    (hconditional : ∀ branch, t.lexeme ≠ .conditional branch) :
    complete finish ⟨done, .ready⟩ (t :: ts) =
      complete finish ⟨done, .operand .statement []⟩ (t :: ts) := by
  have hbegin : begin t = operand .statement [] t := by
    unfold begin
    split
    · rename_i hlexeme
      exact absurd hlexeme (hdeclare _)
    · rename_i hlexeme
      exact absurd hlexeme (hconditional _)
    · rfl
  rw [complete_cons, complete_cons]
  simp only [step, hbegin]

end Builder

end LetLang
