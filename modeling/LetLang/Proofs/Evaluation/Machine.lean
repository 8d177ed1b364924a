import LetLang.Evaluation
import LetLang.Proofs.Number.Fields
import LetLang.Proofs.Token.Spelling

/-!
# Operations on a machine that can break down

The machine below the language knows partial operations: a table has no entry under a key,
a division by zero has no answer, nor has the remainder of an infinite number, an infinite
number has no digits, a text need not be a numeral, and a template for a message need not
fit its snippets. Here the operations on values are written with these, each behind the
tests that the language makes before it. None of them ever breaks down: they give what
`Value.arithmetic`, `Value.logical` and `Value.unary` give, whatever the symbol and the
values are.
-/

namespace LetLang

/-- How an operation of the machine breaks down. -/
inductive Trap
  | missingKey
  | missingItem
  | zeroDivisor
  | outOfDomain
  | notFinite
  | notNumeral
  | malformedTemplate
deriving DecidableEq, Repr

namespace Machine

open Binary64

/-- The entry of a table under a key. -/
def entry {α : Type} (table : Ledger String α) (key : String) : Except Trap α :=
  match Ledger.get? key table with
  | some a => .ok a
  | none => .error .missingKey

/-- The item of a list at a place. -/
def item {α : Type} (xs : List α) (i : Nat) : Except Trap α :=
  match xs[i]? with
  | some a => .ok a
  | none => .error .missingItem

/-- The quotient of two numbers, if the second is not zero. -/
def divide (x y : Float) : Except Trap Float :=
  if (y == 0) = true then .error .zeroDivisor else .ok (x / y)

/-- The remainder of two numbers, if the first is not infinite and the second not zero. -/
def modulo (x y : Float) : Except Trap Float :=
  if x.isInf = true ∨ (y == 0) = true then .error .outOfDomain else .ok (remainder x y)

/-- The whole part of a finite number. -/
def truncate (x : Float) : Except Trap Int :=
  match view x with
  | .finite negative units =>
      .ok (if negative then -Int.ofNat (units / unitsPerOne)
        else Int.ofNat (units / unitsPerOne))
  | _ => .error .notFinite

/-- The number has no fraction. -/
def isWhole (x : Float) : Bool :=
  match view x with
  | .finite _ units => units % unitsPerOne == 0
  | _ => false

/-- The number of a text of digits with at most one point and at least one digit. -/
def number (cs : List Char) : Except Trap Float :=
  if cs.all Lexeme.isNumeralChar && cs.count '.' ≤ 1 && cs.any Char.isDigit then
    .ok (Decimal.read cs)
  else
    .error .notNumeral

theorem number_of_isNumeral
    {cs : List Char}
    (h : Lexeme.IsNumeral cs) :
    number cs = .ok (Decimal.read cs) := by
  obtain ⟨hclass, hpoints, d, hmem, hdigit⟩ := h
  have hall : cs.all Lexeme.isNumeralChar = true := List.all_eq_true.mpr hclass
  have hany : cs.any Char.isDigit = true := List.any_eq_true.mpr ⟨d, hmem, hdigit⟩
  rw [number, hall, hany, decide_eq_true hpoints]
  rfl

/-- Fills the slots of a template in order. A single brace is refused, and so is a slot
without a snippet. `words` holds what was copied since the last slot, newest first. -/
def format (snippets : List String) (words : List Char) : List Char → Except Trap Message
  | [] => .ok [.words (String.ofList words.reverse)]
  | c :: cs =>
    if c = '\x7b' then
      match cs with
      | '\x7b' :: rest => format snippets (c :: words) rest
      | '\x7d' :: rest =>
        match snippets with
        | [] => .error .missingItem
        | s :: others => (format others [] rest).map fun m =>
            .words (String.ofList words.reverse) :: .snippet s :: m
      | _ => .error .malformedTemplate
    else if c = '\x7d' then
      match cs with
      | '\x7d' :: rest => format snippets (c :: words) rest
      | _ => .error .malformedTemplate
    else
      format snippets (c :: words) cs

end Machine

namespace Cause

/-- The message of the cause with a slot for each snippet. -/
def template : Cause → String
  | unexpectedCharacter _ => "unexpected character '\x7b\x7d'"
  | unterminatedString _ => "unterminated string literal '\x7b\x7d'"
  | extraPoint _ => "too many decimal points in number literal '\x7b\x7d'"
  | noDigits _ => "number literal '\x7b\x7d' has no digits"
  | conditional _ => "conditional statements are not supported: '\x7b\x7d'"
  | expectedName keyword _ =>
      "expected identifier after '" ++ keyword ++ "', got '\x7b\x7d'"
  | constantWithoutValue _ => "constant '\x7b\x7d' must have a value"
  | expectedValue _ =>
      "expected '=' or ';' after identifier in declaration, got '\x7b\x7d'"
  | expectedSemicolon _ => "expected ';' after variable declaration, got '\x7b\x7d'"
  | expectedClosing _ => "expected ')' to close parenthesized expression, got '\x7b\x7d'"
  | unexpectedToken _ => "unexpected token '\x7b\x7d'"
  | alreadyDeclared _ => "variable '\x7b\x7d' is already declared"
  | notDeclared _ => "symbol '\x7b\x7d' was not declared"
  | reservedName _ => "cannot assign to built-in '\x7b\x7d'"
  | constantName _ => "constant '\x7b\x7d' cannot be reassigned"
  | unaryOperand _ _ => "invalid unary operation '\x7b\x7d' on \x7b\x7d"
  | notArithmetic _ => "invalid arithmetic operator '\x7b\x7d'"
  | notLogical _ => "invalid logical operator '\x7b\x7d'"
  | mismatch _ _ _ => "invalid operation '\x7b\x7d' between \x7b\x7d and \x7b\x7d"
  | divisionByZero => "division by zero"
  | notAssignable _ => "invalid left-hand side of assignment: \x7b\x7d"
  | notEvaluable _ => "'\x7b\x7d' is not an evaluable node"

/-- The snippets for the slots. The first is the one that the cause is about. -/
def snippets : Cause → List String
  | unaryOperand operator type => [operator, type]
  | mismatch operator left right => [operator, left, right]
  | c => [c.snippet]

end Cause

namespace Message

/-- The words of a piece have no braces. -/
def isPlain : Piece → Bool
  | .words text => text.toList.all fun c => c ≠ '\x7b' ∧ c ≠ '\x7d'
  | .snippet _ => true

/-- The text of a message with a slot for each snippet. -/
def slotted : Message → List Char
  | [] => []
  | .words text :: m => text.toList ++ slotted m
  | .snippet _ :: m => '\x7b' :: '\x7d' :: slotted m

/-- The snippets of a message in order. -/
def slots : Message → List String
  | [] => []
  | .words _ :: m => slots m
  | .snippet s :: m => s :: slots m

theorem format_words
    (snippets : List String) (words rest : List Char) {cs : List Char}
    (hcs : ∀ c ∈ cs, c ≠ '\x7b' ∧ c ≠ '\x7d') :
    Machine.format snippets words (cs ++ rest) =
      Machine.format snippets (cs.reverse ++ words) rest := by
  induction cs generalizing words with
  | nil => rfl
  | cons c cs ih =>
      obtain ⟨hopen, hclose⟩ := hcs c List.mem_cons_self
      have htail := ih (c :: words) (fun d hd => hcs d (List.mem_cons_of_mem c hd))
      rw [List.cons_append, Machine.format.eq_def]
      simp only [if_neg hopen, if_neg hclose, htail, List.reverse_cons, List.append_assoc,
        List.singleton_append]

theorem render_cons
    (style : Style) (piece : Piece) (m : Message) :
    render style (piece :: m) = piece.render style ++ render style m := by
  simp [render]

/-- A message without braces in its words is what its template gives, however many snippets
are left over. -/
theorem exists_format_slotted
    {m : Message} (extra : List String) (words : List Char)
    (hm : m.all isPlain = true) :
    ∃ m', Machine.format (m.slots ++ extra) words m.slotted = .ok m' ∧
      ∀ style, m'.render style = String.ofList words.reverse ++ m.render style := by
  induction m generalizing words with
  | nil =>
      refine ⟨_, rfl, ?_⟩
      intro style
      simp [render, Piece.render]
  | cons piece m ih =>
      rw [List.all_cons, Bool.and_eq_true] at hm
      cases piece with
      | words text =>
          obtain ⟨m', hformat, hrender⟩ := ih (text.toList.reverse ++ words) hm.2
          refine ⟨m', ?_, ?_⟩
          · rw [slotted, slots, format_words _ _ _ (by simpa [isPlain] using hm.1)]
            exact hformat
          · intro style
            rw [hrender, render_cons]
            simp [Piece.render, String.append_assoc]
      | snippet s =>
          obtain ⟨m', hformat, hrender⟩ := ih [] hm.2
          refine ⟨.words (String.ofList words.reverse) :: .snippet s :: m', ?_, ?_⟩
          · rw [slotted, slots, List.cons_append, Machine.format, if_pos rfl]
            simp only [hformat, Except.map]
          · intro style
            rw [render_cons, render_cons, render_cons, hrender]
            simp [Piece.render]

end Message

namespace Cause

theorem toList_template
    (c : Cause) :
    c.template.toList = c.message.slotted := by
  unfold template message
  cases c
  case expectedName keyword found => simp [Message.slotted]
  all_goals dsimp only [Message.slotted]
  all_goals decide +kernel

theorem exists_snippets_eq
    (c : Cause) :
    ∃ extra, c.snippets = c.message.slots ++ extra := by
  cases c <;> exact ⟨_, rfl⟩

/-- Only the name that is expected after a keyword has words in its message that are
not fixed. -/
theorem isPlain_of_ne
    {c : Cause}
    (h : ∀ keyword found, c ≠ .expectedName keyword found) :
    c.message.all Message.isPlain = true := by
  cases c with
  | expectedName keyword found => exact absurd rfl (h keyword found)
  | _ => rfl

/-- A message is formatted without breaking down, whatever the snippets, if there are no
braces in its words. -/
theorem exists_format_template
    {c : Cause}
    (hc : c.message.all Message.isPlain = true) :
    ∃ m, Machine.format c.snippets [] c.template.toList = .ok m ∧
      ∀ style, m.render style = c.message.render style := by
  obtain ⟨extra, hextra⟩ := c.exists_snippets_eq
  obtain ⟨m, hformat, hrender⟩ := Message.exists_format_slotted extra [] hc
  refine ⟨m, ?_, ?_⟩
  · rw [hextra, toList_template]
    exact hformat
  · intro style
    rw [hrender]
    simp

end Cause

/-- Why evaluation on the machine stops without a value. -/
inductive Stop (ε : Type)
  | trap (t : Trap)
  | fault (e : ε)

namespace Checked

open Binary64

/-- The answer of an operation of the machine. -/
def lift {ε α : Type} : Except Trap α → Except (Stop ε) α
  | .ok a => .ok a
  | .error t => .error (.trap t)

/-- An answer that does not come from the machine. -/
def answer {ε α : Type} : Except ε α → Except (Stop ε) α
  | .ok a => .ok a
  | .error e => .error (.fault e)

/-- Fails with a cause, whose message is formatted first and whose first snippet is
looked up. -/
def refuse {α : Type} (cause : Cause) : Except (Stop Cause) α := do
  let _ ← lift (Machine.format cause.snippets [] cause.template.toList)
  let _ ← lift (Machine.item cause.snippets 0)
  .error (.fault cause)

theorem refuse_eq
    {α : Type} {cause : Cause}
    (hcause : cause.message.all Message.isPlain = true) :
    (refuse cause : Except (Stop Cause) α) = .error (.fault cause) := by
  obtain ⟨m, hformat, _⟩ := Cause.exists_format_template hcause
  have hitem : ∃ s, Machine.item cause.snippets 0 = .ok s := by
    cases cause <;> exact ⟨_, rfl⟩
  obtain ⟨s, hs⟩ := hitem
  simp only [refuse, hformat, hs, lift, bind, Except.bind]

/-- The number that an arithmetic operator computes on the machine. A remainder is only
asked for where there is one. -/
def compute : ArithOp → Float → Float → Except Trap Float
  | .add, x, y => .ok (x + y)
  | .sub, x, y => .ok (x - y)
  | .mul, x, y => .ok (x * y)
  | .div, x, y => Machine.divide x y
  | .rem, x, y =>
      if (y == 0) = true ∨ x.isInf = true then .ok notANumber else Machine.modulo x y

/-- A table of what operators do, by their symbols. -/
def table {ω α : Type} (symbol : ω → String) (meaning : ω → α)
    (ops : List ω) : Ledger String α :=
  ops.map fun op => (symbol op, meaning op)

/-- The arithmetic operators by their symbols. -/
def arithmeticTable : Ledger String (Float → Float → Except Trap Float) :=
  table ArithOp.symbol compute [.add, .sub, .mul, .div, .rem]

/-- The logical operators by their symbols. -/
def logicalTable : Ledger String (Float → Float → Bool) :=
  table LogicOp.symbol LogicOp.decides [.and, .or, .gt, .lt, .ge, .le, .eq, .ne]

/-- An arithmetic operator between two numbers. -/
def numeric (symbol : String) (x y : Float) : Except (Stop Cause) Value :=
  if symbol ∉ Ledger.keys arithmeticTable then
    refuse (.notArithmetic symbol)
  else if symbol = "/" ∧ (y == 0) = true then
    refuse .divisionByZero
  else do
    let f ← lift (Machine.entry arithmeticTable symbol)
    let z ← lift (f x y)
    return .number z

theorem compute_eq
    {op : ArithOp} {x y : Float}
    (h : ¬ (op = .div ∧ (y == 0) = true)) :
    compute op x y = .ok (op.compute x y) := by
  cases op with
  | add => rfl
  | sub => rfl
  | mul => rfl
  | div =>
      have hy : ¬ (y == 0) = true := fun hzero => h ⟨rfl, hzero⟩
      rw [compute, Machine.divide, if_neg hy]
      rfl
  | rem =>
      rw [compute]
      split
      · rename_i hguard
        exact congrArg Except.ok (remainder_eq_notANumber hguard).symm
      · rename_i hguard
        rw [Machine.modulo, if_neg (by rwa [Or.comm] at hguard)]
        rfl

theorem entry_table
    {ω α : Type} {symbol : ω → String} (meaning : ω → α) {ops : List ω} {op : ω}
    (hsymbol : Function.Injective symbol)
    (hop : op ∈ ops) :
    Machine.entry (table symbol meaning ops) (symbol op) = .ok (meaning op) := by
  suffices h : Ledger.get? (symbol op) (table symbol meaning ops) = some (meaning op) by
    rw [Machine.entry, h]
  induction ops with
  | nil => cases hop
  | cons first rest ih =>
      by_cases hfirst : symbol first = symbol op
      · obtain rfl := hsymbol hfirst
        exact if_pos rfl
      · have hrest : op ∈ rest := by
          rcases List.mem_cons.mp hop with rfl | hmem
          · exact absurd rfl hfirst
          · exact hmem
        exact (if_neg hfirst).trans (ih hrest)

/-- A symbol is in the table of all operators if it is read as one, whose meaning is then
its entry. -/
theorem table_cases
    {ω α : Type} {symbol : ω → String} {ofSymbol? : String → Option ω}
    (meaning : ω → α) {ops : List ω}
    (hread : ∀ op, ofSymbol? (symbol op) = some op)
    (hwritten : ∀ s op, ofSymbol? s = some op → s = symbol op)
    (hops : ∀ op, op ∈ ops)
    (s : String) :
    (ofSymbol? s = none ∧ s ∉ Ledger.keys (table symbol meaning ops)) ∨
      ∃ op, s = symbol op ∧ s ∈ Ledger.keys (table symbol meaning ops) ∧
        Machine.entry (table symbol meaning ops) s = .ok (meaning op) := by
  have hkeys : Ledger.keys (table symbol meaning ops) = ops.map symbol := List.map_map
  have hinjective : Function.Injective symbol := by
    intro op other heq
    have hother := hread other
    rw [← heq, hread op] at hother
    exact Option.some.inj hother
  cases hs : ofSymbol? s with
  | none =>
      refine Or.inl ⟨rfl, ?_⟩
      intro hmem
      rw [hkeys] at hmem
      obtain ⟨op, _, rfl⟩ := List.mem_map.mp hmem
      rw [hread op] at hs
      cases hs
  | some op =>
      obtain rfl := hwritten s op hs
      refine Or.inr ⟨op, rfl, ?_, entry_table meaning hinjective (hops op)⟩
      rw [hkeys]
      exact List.mem_map_of_mem (hops op)

theorem arithmetic_symbol_cases
    (s : String) :
    (ArithOp.ofSymbol? s = none ∧ s ∉ Ledger.keys arithmeticTable) ∨
      ∃ op : ArithOp, s = op.symbol ∧ s ∈ Ledger.keys arithmeticTable ∧
        Machine.entry arithmeticTable s = .ok (compute op) := by
  refine table_cases compute ArithOp.ofSymbol?_symbol ?_ ?_ s
  · intro s op hop
    unfold ArithOp.ofSymbol? at hop
    split at hop
    all_goals cases hop
    all_goals rfl
  · intro op
    cases op <;> decide

theorem numeric_eq
    (symbol : String) (x y : Float) :
    numeric symbol x y = answer (Value.numeric symbol x y) := by
  rcases arithmetic_symbol_cases symbol with ⟨hnone, hkeys⟩ | ⟨op, rfl, hkeys, hentry⟩
  · rw [numeric, if_pos hkeys, Value.numeric, hnone]
    exact refuse_eq (Cause.isPlain_of_ne (by simp))
  · have hslash : (op.symbol = "/" ∧ (y == 0) = true) ↔ (op = .div ∧ (y == 0) = true) := by
      cases op <;> simp [ArithOp.symbol]
    rw [numeric, if_neg (not_not_intro hkeys), Value.numeric, ArithOp.ofSymbol?_symbol]
    by_cases hzero : op = .div ∧ (y == 0) = true
    · simp only [if_pos (hslash.mpr hzero), if_pos hzero]
      exact refuse_eq (Cause.isPlain_of_ne (by simp))
    · simp only [if_neg (mt hslash.mp hzero), if_neg hzero, hentry, lift, compute_eq hzero,
        bind, Except.bind]
      rfl

/-- The text of a number, whose digits are those of its whole part if it has
no fraction. -/
def numberText (x : Float) : Except Trap String :=
  if x.isNaN then .ok "NaN"
  else if x.isInf then .ok (if x > 0 then "Infinity" else "-Infinity")
  else if Machine.isWhole x then (Machine.truncate x).map toString
  else .ok (Decimal.numeral x)

theorem toString_truncated
    (negative : Bool) {units : Nat}
    (h : units % unitsPerOne = 0) :
    toString (if negative then -Int.ofNat (units / unitsPerOne)
      else Int.ofNat (units / unitsPerOne)) =
      String.ofList (Decimal.sign (negative && units != 0) ++
        Nat.toDigits 10 (units / unitsPerOne)) := by
  cases negative with
  | false => rfl
  | true =>
      -- minus zero is written without a sign, and so is the whole number zero
      rcases Nat.eq_zero_or_pos units with rfl | hpos
      · rw [Nat.zero_div]
        rfl
      · have hunits : (units != 0) = true := by
          simp only [bne_iff_ne]
          omega
        have hquotient : units / unitsPerOne ≠ 0 := by
          intro hzero
          have hsum := Nat.div_add_mod units unitsPerOne
          rw [hzero, h] at hsum
          omega
        obtain ⟨q, hq⟩ := Nat.exists_eq_succ_of_ne_zero hquotient
        rw [hq, hunits]
        change "-" ++ Nat.repr (q + 1) = String.ofList (['-'] ++ Nat.toDigits 10 (q + 1))
        rw [String.ofList_append]
        rfl

theorem numberText_eq
    (x : Float) :
    numberText x = .ok (Decimal.display x) := by
  unfold numberText Decimal.display
  cases hnan : x.isNaN with
  | true =>
      rw [view_of_isNaN hnan]
      rfl
  | false =>
      cases hinf : x.isInf with
      | true =>
          rw [view_of_isInf hinf]
          by_cases hx : x > 0
          · simp only [hx]
            rfl
          · simp only [hx]
            rfl
      | false =>
          obtain ⟨negative, units, hview⟩ := view_of_finite hnan hinf
          simp only [Machine.isWhole, Machine.truncate, hview]
          by_cases hwhole : units % unitsPerOne = 0
          · simp only [hwhole, Except.map]
            exact congrArg Except.ok (toString_truncated negative hwhole)
          · simp [hwhole]

/-- The text of a value. -/
def text : Value → Except Trap String
  | .number x => numberText x
  | v => .ok v.text

theorem text_eq
    (v : Value) :
    text v = .ok v.text := by
  cases v with
  | number x => exact numberText_eq x
  | _ => rfl

/-- An arithmetic operator between two values. -/
def arithmetic (symbol : String) (l r : Value) : Except (Stop Cause) Value :=
  if l.isString || r.isString then
    if symbol = "+" then do
      let s ← lift (text l)
      let t ← lift (text r)
      return .string (s ++ t)
    else
      refuse (.mismatch symbol l.typeName r.typeName)
  else
    match l.toNumber?, r.toNumber? with
    | some x, some y => numeric symbol x y
    | _, _ => .ok .null

theorem arithmetic_eq
    (symbol : String) (l r : Value) :
    arithmetic symbol l r = answer (Value.arithmetic symbol l r) := by
  unfold arithmetic Value.arithmetic
  split
  · split
    · simp only [text_eq, lift, bind, Except.bind]
      rfl
    · exact refuse_eq (Cause.isPlain_of_ne (by simp))
  · rcases l.toNumber? with _ | x
    · rfl
    · rcases r.toNumber? with _ | y
      · rfl
      · exact numeric_eq symbol x y

theorem logical_symbol_cases
    (s : String) :
    (LogicOp.ofSymbol? s = none ∧ s ∉ Ledger.keys logicalTable) ∨
      ∃ op : LogicOp, s = op.symbol ∧ s ∈ Ledger.keys logicalTable ∧
        Machine.entry logicalTable s = .ok op.decides := by
  refine table_cases LogicOp.decides LogicOp.ofSymbol?_symbol ?_ ?_ s
  · intro s op hop
    unfold LogicOp.ofSymbol? at hop
    split at hop
    all_goals cases hop
    all_goals rfl
  · intro op
    cases op <;> decide

/-- A logical operator between two values. -/
def logical (symbol : String) (l r : Value) : Except (Stop Cause) Value :=
  if l.isString || r.isString then
    if symbol = "==" then .ok (.bool (l.same r))
    else if symbol = "!=" then .ok (.bool !(l.same r))
    else refuse (.mismatch symbol l.typeName r.typeName)
  else
    match l.toNumber?, r.toNumber? with
    | some x, some y =>
      if symbol ∉ Ledger.keys logicalTable then
        refuse (.notLogical symbol)
      else do
        let decides ← lift (Machine.entry logicalTable symbol)
        return .bool (decides x y)
    | _, _ => .ok (.bool false)

theorem logical_eq
    (symbol : String) (l r : Value) :
    logical symbol l r = answer (Value.logical symbol l r) := by
  unfold logical Value.logical
  split
  · split
    · rfl
    · split
      · rfl
      · exact refuse_eq (Cause.isPlain_of_ne (by simp))
  · rcases l.toNumber? with _ | x
    · rfl
    · rcases r.toNumber? with _ | y
      · rfl
      · rcases logical_symbol_cases symbol with ⟨hnone, hkeys⟩ | ⟨op, rfl, hkeys, hentry⟩
        · simp only [if_pos hkeys, hnone]
          exact refuse_eq (Cause.isPlain_of_ne (by simp))
        · simp only [if_neg (not_not_intro hkeys), hentry, LogicOp.ofSymbol?_symbol]
          rfl

/-- A sign before a value. -/
def unary (symbol : String) (operand : Value) : Except (Stop Cause) Value :=
  match symbol, operand with
  | "-", .number x => .ok (.number (-x))
  | "!", .bool b => .ok (.bool !b)
  | _, _ => refuse (.unaryOperand symbol operand.typeName)

theorem unary_eq
    (symbol : String) (operand : Value) :
    unary symbol operand = answer (Value.unary symbol operand) := by
  fun_cases Value.unary symbol operand with
  | case1 x => rfl
  | case2 b => rfl
  | case3 =>
      rename_i hminus hnot
      rw [unary.eq_3 symbol operand hminus hnot]
      exact refuse_eq (Cause.isPlain_of_ne (by simp))

end Checked
end LetLang
