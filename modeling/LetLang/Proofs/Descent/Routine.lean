import LetLang.Proofs.Evaluation.Machine
import LetLang.Proofs.Tree.Run

/-!
# Reading by recursive descent

The grammar of programs can also be read by routines that call each other, one for each
level of operators. They share a cursor on the list of tokens, which ends in a mark for the
end of the text. A routine looks at the token under the cursor, takes it or leaves it, and
most routines call another one before they have taken anything. Nothing in this form
ensures that they ever come back, or that the cursor stays on the list. So the calls within
each other are limited, whoever goes deeper has no outcome, and looking beyond the list
breaks the machine down. A computation that has come back does so with the same outcome if
the limit is higher.

`Descent.Ends` says of a computation that it does come back, that it has not broken the
machine down, and that the tokens which the cursor has passed have been taken, each of them
once and in order. There is a rule for every part that routines are made of.
-/

namespace LetLang

/-- A place on a list of tokens, and how it was reached. -/
structure Cursor where
  /-- The place of the token under the cursor. -/
  index : Nat
  /-- The tokens that have been taken, in the order in which they were. -/
  taken : List Token
deriving DecidableEq, Repr

/-- The cursor after some tokens, of which each has been taken once. -/
def Cursor.behind (before : List Token) : Cursor := ⟨before.length, before⟩

namespace TokenStream

/-- The list on which a cursor moves: the tokens, then the mark for the end of the text. -/
def marks (s : TokenStream) : List (Option Token) :=
  s.tokens.map some ++ [none]

/-- The fault of a token, or of the end of the text, where something else is expected. -/
def fault (s : TokenStream) (cause : String → Cause) : Option Token → Fault
  | some t => ⟨cause t.lexeme.text, t.pos⟩
  | none => ⟨cause Token.endText, s.finish⟩

theorem item_marks
    {s : TokenStream} {before ts : List Token}
    (h : s.tokens = before ++ ts) :
    Machine.item s.marks before.length = .ok ts.head? := by
  cases ts with
  | nil => simp [marks, h, Machine.item]
  | cons t ts => simp [marks, h, Machine.item]

end TokenStream

/-- An operator that may stand before its operand. -/
def Operator.isSign : Operator → Bool
  | .not | .binary (.arith .sub) => true
  | _ => false

def Lexeme.isIdentifier : Lexeme → Bool
  | .identifier _ => true
  | _ => false

/-- Reading with a cursor. There is no outcome if the reading does not come back within the
depth of calls that it has. -/
abbrev Descent := ExceptT (Stop Fault) (StateT Cursor Option)

namespace Descent

/-- What comes of a computation that starts at a cursor: a result or the reason why there
is none, and the cursor in the end. -/
def outcome {α : Type} (m : Descent α) (c : Cursor) :
    Option (Except (Stop Fault) α × Cursor) :=
  m.run.run c

/-- Where no call is left. -/
def tooDeep {α : Type} : Descent α := ExceptT.mk fun _ => none

section Routines

variable (s : TokenStream)

/-- The token under the cursor, or nothing if there is the mark for the end of the text. -/
def look : Descent (Option Token) := do
  let c ← get
  match Machine.item s.marks c.index with
  | .ok mark => return mark
  | .error t => throw (.trap t)

/-- Takes the token under the cursor. The mark for the end is never taken. -/
def take : Descent (Option Token) := do
  let mark ← look s
  match mark with
  | some t => modify fun c => ⟨c.index + 1, c.taken ++ [t]⟩
  | none => pure ()
  return mark

/-- Takes the token under the cursor if it is accepted, and refuses it otherwise. -/
def expect (accepts : Lexeme → Bool) (cause : String → Cause) : Descent Token := do
  match ← look s with
  | some t =>
    if accepts t.lexeme then
      let _ ← take s
      return t
    else
      throw (.fault (s.fault cause (some t)))
  | none => throw (.fault (s.fault cause none))

/-- The routines that read expressions. -/
inductive Routine
  /-- An expression with operators of at least this level. The level of assignments
  is zero. -/
  | level (n : Nat)
  /-- An operand behind any number of signs. -/
  | unary
  /-- An identifier, a number, a string or an expression in parentheses. -/
  | primary
deriving DecidableEq, Repr

mutual

/-- Reads an expression with calls within each other up to some depth. -/
def read : Nat → Routine → Descent Node
  | 0, _ => tooDeep
  | depth + 1, .level 0 => do
    let left ← read depth (.level 1)
    match ← look s with
    | some ⟨.operator .assign, _⟩ =>
      let _ ← take s
      let value ← read depth (.level 0)
      return .assignment left.pos left value
    | _ => return left
  | depth + 1, .level (n + 1) => do
    if n < 6 then
      let first ← read depth (.level (n + 2))
      chain depth (n + 1) first
    else
      read depth .unary
  | depth + 1, .unary => do
    match ← look s with
    | some ⟨.operator op, pos⟩ =>
      if op.isSign then
        let _ ← take s
        let operand ← read depth .unary
        return .unary pos op.symbol operand
      else
        read depth .primary
    | _ => read depth .primary
  | depth + 1, .primary => do
    match ← look s with
    | some ⟨.identifier name, pos⟩ =>
      let _ ← take s
      return .identifier pos name
    | some ⟨.number digits, pos⟩ =>
      let _ ← take s
      return .number pos (Decimal.read digits.toList)
    | some ⟨.string text, pos⟩ =>
      let _ ← take s
      return .string pos text
    | some ⟨.openParen, _⟩ =>
      let _ ← take s
      let inner ← read depth (.level 0)
      let _ ← expect s (· == .closeParen) .expectedClosing
      return inner
    | mark => throw (.fault (s.fault .unexpectedToken mark))

/-- Reads operators of one level and what they join to the operand that has been read. -/
def chain : Nat → Nat → Node → Descent Node
  | 0, _, _ => tooDeep
  | depth + 1, n, left => do
    match ← look s with
    | some ⟨.operator (.binary op), pos⟩ =>
      if op.level = n then
        let _ ← take s
        let right ← read depth (.level (n + 1))
        chain depth n (.operation op.family left.pos op.symbol pos left right)
      else
        return left
    | _ => return left

end

/-- Reads what follows the name in a declaration. -/
def initializer (depth : Nat) (keyword : Pos) (constant : Bool) (name : String)
    (namePos : Pos) : Descent Node := do
  match ← look s with
  | some ⟨.semicolon, _⟩ =>
    if constant then
      throw (.fault ⟨.constantWithoutValue name, namePos⟩)
    else
      let _ ← take s
      return .declaration keyword name namePos constant none
  | _ =>
    let _ ← expect s (· == .operator .assign) .expectedValue
    let value ← read s depth (.level 0)
    let _ ← expect s (· == .semicolon) .expectedSemicolon
    return .declaration keyword name namePos constant (some value)

/-- Reads a declaration, whose keyword is under the cursor. -/
def declaration (depth : Nat) (keyword : Pos) (constant : Bool) : Descent Node := do
  let _ ← take s
  let name ← expect s Lexeme.isIdentifier (.expectedName (Builder.keyword constant))
  initializer s depth keyword constant name.lexeme.text name.pos

/-- Reads a statement. -/
def statement (depth : Nat) : Descent Node := do
  match ← look s with
  | some ⟨.declare constant, pos⟩ => declaration s depth pos constant
  | some ⟨.conditional branch, pos⟩ => throw (.fault ⟨.conditional branch.keyword, pos⟩)
  | _ =>
    let value ← read s depth (.level 0)
    match ← look s with
    | some ⟨.semicolon, _⟩ =>
      let _ ← take s
      return value
    | _ => return value

/-- Reads statements up to the end of the text, after those that have been read. -/
def statements : Nat → List Node → Descent (List Node)
  | 0, _ => tooDeep
  | depth + 1, body => do
    match ← look s with
    | some _ =>
      let node ← statement s depth
      statements depth (body ++ [node])
    | none => return body

/-- Reads a program. -/
def program (depth : Nat) : Descent Node := do
  return .program .unknown (← statements s depth [])

end Routines

section Rules

variable {α β : Type} {m : Descent α} {f : α → Descent β} {c c' : Cursor}

theorem outcome_bind_of_ok
    {a : α}
    (h : m.outcome c = some (.ok a, c')) :
    (m >>= f).outcome c = (f a).outcome c' := by
  change (m.outcome c).bind _ = _
  rw [h]
  rfl

theorem outcome_bind_of_error
    {stop : Stop Fault}
    (h : m.outcome c = some (.error stop, c')) :
    (m >>= f).outcome c = some (.error stop, c') := by
  change (m.outcome c).bind _ = _
  rw [h]
  rfl

/-- Where the first computation comes back, the second one does so with the
same outcome. -/
def Within (m m' : Descent α) : Prop :=
  ∀ c result, m.outcome c = some result → m'.outcome c = some result

theorem Within.refl
    (m : Descent α) :
    Within m m := by
  intro c result h
  exact h

theorem Within.bind
    {m' : Descent α} {f' : α → Descent β}
    (hm : Within m m')
    (hf : ∀ a, Within (f a) (f' a)) :
    Within (m >>= f) (m' >>= f') := by
  intro c result h
  cases houtcome : m.outcome c with
  | none =>
      change (m.outcome c).bind _ = _ at h
      rw [houtcome] at h
      cases h
  | some first =>
      obtain ⟨⟨stop⟩ | ⟨a⟩, c'⟩ := first
      · rw [outcome_bind_of_error houtcome] at h
        rw [outcome_bind_of_error (hm c _ houtcome), h]
      · rw [outcome_bind_of_ok houtcome] at h
        rw [outcome_bind_of_ok (hm c _ houtcome)]
        exact hf a c' result h

theorem within_tooDeep
    (m : Descent α) :
    Within tooDeep m := by
  intro c result h
  cases h

/-- Once a computation comes back, it does so at every greater depth. -/
theorem Within.outcome_of_le
    {m : Nat → Descent α} {depth depth' : Nat} {result : Except (Stop Fault) α × Cursor}
    (h : ∀ depth, Within (m depth) (m (depth + 1)))
    (hle : depth ≤ depth')
    (hresult : (m depth).outcome c = some result) :
    (m depth').outcome c = some result := by
  induction hle with
  | refl => exact hresult
  | step _ ih => exact h _ c result ih

/-- A greater depth changes nothing for calls that have come back. -/
theorem within_read_succ
    (s : TokenStream) (depth : Nat) :
    (∀ routine, Within (read s depth routine) (read s (depth + 1) routine)) ∧
      ∀ n left, Within (chain s depth n left) (chain s (depth + 1) n left) := by
  induction depth with
  | zero =>
      refine ⟨fun routine => ?_, fun n left => ?_⟩
      · rw [read]
        exact within_tooDeep _
      · rw [chain]
        exact within_tooDeep _
  | succ depth ih =>
      obtain ⟨ihRead, ihChain⟩ := ih
      refine ⟨fun routine => ?_, fun n left => ?_⟩
      · cases routine with
        | level n =>
            cases n with
            | zero =>
                rw [read, read]
                refine .bind (ihRead _) fun left => .bind (.refl _) fun mark => ?_
                split
                · exact .bind (.refl _) fun _ => .bind (ihRead _) fun _ => .refl _
                · exact .refl _
            | succ n =>
                rw [read, read]
                split
                · exact .bind (ihRead _) fun _ => ihChain _ _
                · exact ihRead _
        | unary =>
            rw [read, read]
            refine .bind (.refl _) fun mark => ?_
            split
            · split
              · exact .bind (.refl _) fun _ => .bind (ihRead _) fun _ => .refl _
              · exact ihRead _
            · exact ihRead _
        | primary =>
            rw [read, read]
            refine .bind (.refl _) fun mark => ?_
            split
            case h_4 => exact .bind (.refl _) fun _ => .bind (ihRead _) fun _ => .refl _
            all_goals exact .refl _
      · rw [chain, chain]
        refine .bind (.refl _) fun mark => ?_
        split
        · split
          · exact .bind (.refl _) fun _ => .bind (ihRead _) fun _ => ihChain _ _
          · exact .refl _
        · exact .refl _

theorem within_statement_succ
    (s : TokenStream) (depth : Nat) :
    Within (statement s depth) (statement s (depth + 1)) := by
  have hread := (within_read_succ s depth).1 (.level 0)
  rw [statement, statement]
  refine .bind (.refl _) fun mark => ?_
  split
  · refine .bind (.refl _) fun _ => .bind (.refl _) fun name => ?_
    rw [initializer, initializer]
    refine .bind (.refl _) fun mark' => ?_
    split
    · exact .refl _
    · exact .bind (.refl _) fun _ => .bind hread fun _ => .refl _
  · exact .refl _
  · exact .bind hread fun _ => .refl _

theorem within_statements_succ
    (s : TokenStream) (depth : Nat) (body : List Node) :
    Within (statements s depth body) (statements s (depth + 1) body) := by
  induction depth generalizing body with
  | zero =>
      rw [statements]
      exact within_tooDeep _
  | succ depth ih =>
      rw [statements, statements]
      refine .bind (.refl _) fun mark => ?_
      split
      · exact .bind (within_statement_succ s depth) fun node => ih _
      · exact .refl _

theorem within_program_succ
    (s : TokenStream) (depth : Nat) :
    Within (program s depth) (program s (depth + 1)) := by
  rw [program, program]
  exact .bind (within_statements_succ s depth []) fun _ => .refl _

/-- Where the tokens `ts` are left, the computation comes back with a result, of which
`post` holds together with the tokens that are then left, or with a fault, of which
`refused` holds. -/
inductive Ends (m : Descent α) (before ts : List Token) (post : α → List Token → Prop)
    (refused : Fault → Prop) : Prop
  | result {a : α} {taken rest : List Token}
      (htokens : ts = taken ++ rest)
      (houtcome : m.outcome (.behind before) = some (.ok a, .behind (before ++ taken)))
      (hpost : post a rest)
  | refusal {fault : Fault} {taken rest : List Token}
      (htokens : ts = taken ++ rest)
      (houtcome : m.outcome (.behind before) =
        some (.error (.fault fault), .behind (before ++ taken)))
      (hrefused : refused fault)

variable {s : TokenStream} {before ts : List Token} {t : Token}
variable {post post' : α → List Token → Prop} {after : β → List Token → Prop}
    {refused refused' : Fault → Prop}

theorem Ends.mono
    (h : Ends m before ts post refused)
    (hpost : ∀ a rest, rest.length ≤ ts.length → post a rest → post' a rest)
    (hrefused : ∀ fault, refused fault → refused' fault) :
    Ends m before ts post' refused' := by
  cases h with
  | refusal htokens houtcome h => exact .refusal htokens houtcome (hrefused _ h)
  | result htokens houtcome h =>
      refine .result htokens houtcome (hpost _ _ ?_ h)
      rw [htokens, List.length_append]
      exact Nat.le_add_left _ _

theorem Ends.pure
    {a : α}
    (h : post a ts) :
    Ends (Pure.pure a) before ts post refused := by
  have htokens : ts = [] ++ ts := rfl
  refine .result htokens ?_ h
  rw [List.append_nil]
  rfl

theorem Ends.throw
    {fault : Fault}
    (h : refused fault) :
    Ends (throwThe (Stop Fault) (.fault fault) : Descent α) before ts post refused := by
  have htokens : ts = [] ++ ts := rfl
  refine .refusal htokens ?_ h
  rw [List.append_nil]
  rfl

/-- What follows starts where the first computation has left the cursor. -/
theorem Ends.after_ok
    {a : α} {taken rest : List Token}
    (hm : m.outcome (.behind before) = some (.ok a, .behind (before ++ taken)))
    (hf : Ends (f a) (before ++ taken) rest after refused) :
    Ends (m >>= f) before (taken ++ rest) after refused := by
  cases hf with
  | result htokens houtcome h =>
      rw [← outcome_bind_of_ok hm, List.append_assoc] at houtcome
      exact .result (by rw [htokens, List.append_assoc]) houtcome h
  | refusal htokens houtcome h =>
      rw [← outcome_bind_of_ok hm, List.append_assoc] at houtcome
      exact .refusal (by rw [htokens, List.append_assoc]) houtcome h

theorem outcome_look
    (h : s.tokens = before ++ ts) :
    (look s).outcome (.behind before) = some (.ok ts.head?, .behind before) := by
  have hget : (get : Descent Cursor).outcome (.behind before) =
      some (.ok (.behind before), .behind before) := rfl
  have hitem : Machine.item s.marks (Cursor.behind before).index =
      .ok ts.head? := s.item_marks h
  rw [look, outcome_bind_of_ok hget]
  simp only [hitem]
  rfl

theorem outcome_take
    (h : s.tokens = before ++ t :: ts) :
    (take s).outcome (.behind before) = some (.ok (some t), .behind (before ++ [t])) := by
  rw [take, outcome_bind_of_ok (outcome_look h), Cursor.behind, Cursor.behind,
    List.length_append]
  rfl

section Sequence

variable (h : s.tokens = before ++ ts)
include h

theorem Ends.bind
    (hm : Ends m before ts post refused')
    (hf : ∀ a taken rest, s.tokens = before ++ taken ++ rest → post a rest →
      Ends (f a) (before ++ taken) rest after refused)
    (hrefused : ∀ fault, refused' fault → refused fault) :
    Ends (m >>= f) before ts after refused := by
  cases hm with
  | refusal htokens houtcome hfault =>
      exact .refusal htokens (outcome_bind_of_error houtcome) (hrefused _ hfault)
  | result htokens houtcome hpost =>
      subst htokens
      exact (hf _ _ _ (by rw [h, List.append_assoc]) hpost).after_ok houtcome

/-- There is something to look at, because the cursor is on the list. -/
theorem Ends.look
    {g : Option Token → Descent β}
    (hg : Ends (g ts.head?) before ts after refused) :
    Ends (Descent.look s >>= g) before ts after refused := by
  have hlook : (Descent.look s).outcome (.behind before) =
      some (.ok ts.head?, .behind (before ++ [])) := by
    rw [List.append_nil]
    exact outcome_look h
  rw [← List.append_nil before] at hg
  exact hg.after_ok hlook

theorem Ends.take
    {g : Option Token → Descent β} {rest : List Token}
    (hts : ts = t :: rest)
    (hg : s.tokens = before ++ [t] ++ rest →
      Ends (g (some t)) (before ++ [t]) rest after refused) :
    Ends (Descent.take s >>= g) before ts after refused := by
  subst hts
  refine (hg ?_).after_ok (outcome_take h)
  rw [h, List.append_assoc, List.singleton_append]

/-- The next token is accepted and taken, or it is refused. So is the end of the text. -/
theorem Ends.expect
    {g : Token → Descent β} {accepts : Lexeme → Bool} {cause : String → Cause}
    (hg : ∀ t rest, ts = t :: rest → accepts t.lexeme = true →
      s.tokens = before ++ [t] ++ rest →
      Ends (g t) (before ++ [t]) rest after refused)
    (hrefused : (∀ t ∈ ts.head?, accepts t.lexeme = false) →
      refused (s.fault cause ts.head?)) :
    Ends (Descent.expect s accepts cause >>= g) before ts after refused := by
  rw [Descent.expect, bind_assoc]
  refine Ends.look h ?_
  cases ts with
  | nil => exact Ends.throw (hrefused (by simp))
  | cons t rest =>
      by_cases haccepts : accepts t.lexeme = true
      · simp only [List.head?_cons, if_pos haccepts, bind_assoc, pure_bind]
        exact Ends.take h rfl (hg t rest rfl haccepts)
      · simp only [List.head?_cons, if_neg haccepts]
        exact Ends.throw (hrefused (by simpa using haccepts))

end Sequence

end Rules

end Descent
end LetLang
