import LetLang.Proofs.Grammar.Parsing
import LetLang.Proofs.Number.Fields
import LetLang.Proofs.Token.Spacing
import LetLang.Proofs.Tree.WellFormed

/-!
# Writing trees and reading them back

A tree is written with a semicolon after each statement, separators between the lexemes,
and at least the parentheses it needs. An operand needs them where it binds looser than its
slot: the left operand of an operation has a slot of the level of the operator, the right
operand one of the next level, the operand of a sign one of the level of signs, the target
of an assignment one of the loosest operator, and the assigned value one of assignments.
More parentheses may stand around any expression. However a well-formed tree is written, it
is read back up to positions.
-/

namespace LetLang
namespace Node

open Grammar

/-- The lexemes write the expression in a slot of level `slot`. -/
inductive Written : Nat → Node → List Lexeme → Prop
  | paren
      {slot : Nat} {n : Node} {ws : List Lexeme}
      (h : Written 0 n ws) :
      Written slot n (.openParen :: (ws ++ [.closeParen]))
  | identifier
      {slot : Nat} (pos : Pos) (name : String) :
      Written slot (.identifier pos name) [.identifier name]
  | number
      {slot : Nat} (pos : Pos) (digits : String) :
      Written slot (.number pos (Decimal.read digits.toList)) [.number digits]
  | string
      {slot : Nat} (pos : Pos) (text : String) :
      Written slot (.string pos text) [.string text]
  | operation
      {slot : Nat} {left right : Node} {us vs : List Lexeme}
      (op : BinaryOp) (pos opPos : Pos)
      (hslot : slot ≤ op.level)
      (hleft : Written op.level left us)
      (hright : Written (op.level + 1) right vs) :
      Written slot (.operation op.family pos op.symbol opPos left right)
        (us ++ .operator (.binary op) :: vs)
  | unary
      {slot : Nat} {operand : Node} {ws : List Lexeme} (s : Sign) (pos : Pos)
      (hslot : slot ≤ 7)
      (hoperand : Written 7 operand ws) :
      Written slot (.unary pos s.operator.symbol operand) (.operator s.operator :: ws)
  | assignment
      {target value : Node} {us vs : List Lexeme} (pos : Pos)
      (htarget : Written 1 target us)
      (hvalue : Written 0 value vs) :
      Written 0 (.assignment pos target value) (us ++ .operator .assign :: vs)

/-- The lexemes write the statement and end with its semicolon. -/
inductive StatementWritten : Node → List Lexeme → Prop
  | unset
      (pos : Pos) (name : String) (namePos : Pos) :
      StatementWritten (.declaration pos name namePos false none)
        [.declare false, .identifier name, .semicolon]
  | set
      {value : Node} {ws : List Lexeme} (pos : Pos) (name : String)
      (namePos : Pos) (constant : Bool)
      (hvalue : Written 0 value ws) :
      StatementWritten (.declaration pos name namePos constant (some value))
        (.declare constant :: .identifier name :: .operator
          .assign :: (ws ++ [.semicolon]))
  | expression
      {n : Node} {ws : List Lexeme}
      (h : Written 0 n ws) :
      StatementWritten n (ws ++ [.semicolon])

/-- The lexemes write the statements one after the other. -/
inductive BodyWritten : List Node → List Lexeme → Prop
  | nil :
      BodyWritten [] []
  | cons
      {n : Node} {body : List Node} {us vs : List Lexeme}
      (hstatement : StatementWritten n us)
      (hbody : BodyWritten body vs) :
      BodyWritten (n :: body) (us ++ vs)

/-- The text writes the program, with separators between the lexemes. -/
def Renders (t : Node) (text : String) : Prop :=
  ∃ ws, BodyWritten t.statements ws ∧ Lexeme.Spaced ws text.toList

theorem exists_token
    {lexeme : Lexeme} {ts : List Token} {ws : List Lexeme}
    (h : ts.map Token.lexeme = lexeme :: ws) :
    ∃ pos us, ts = ⟨lexeme, pos⟩ :: us ∧ us.map Token.lexeme = ws := by
  obtain ⟨t, us, rfl, ht, hus⟩ := List.map_eq_cons_iff.mp h
  obtain ⟨lexeme', pos⟩ := t
  cases ht
  exact ⟨pos, us, rfl, hus⟩

theorem exists_last_token
    {lexeme : Lexeme} {ts : List Token}
    (h : ts.map Token.lexeme = [lexeme]) :
    ∃ pos, ts = [⟨lexeme, pos⟩] := by
  obtain ⟨pos, us, rfl, hus⟩ := exists_token h
  obtain rfl := List.map_eq_nil_iff.mp hus
  exact ⟨pos, rfl⟩

/-- Tokens with the written lexemes are those of an expression of the slot's level, with
the same tree. -/
theorem Written.exists_spells
    {slot : Nat} {n : Node} {ws : List Lexeme} {ts : List Token}
    (h : Written slot n ws)
    (hslot : slot ≤ 8)
    (hts : ts.map Token.lexeme = ws) :
    ∃ m, Spells slot m ts ∧ m.same n = true := by
  induction h generalizing ts with
  | paren h ih =>
      obtain ⟨opening, us, rfl, hus⟩ := exists_token hts
      obtain ⟨vs, rest, rfl, hvs, hrest⟩ := List.map_eq_append_iff.mp hus
      obtain ⟨closing, rfl⟩ := exists_last_token hrest
      obtain ⟨m, hm, hsame⟩ := ih (Nat.zero_le 8) hvs
      exact ⟨m, (Spells.paren opening closing hm).loosen hslot (Nat.le_refl 8), hsame⟩
  | identifier pos name =>
      obtain ⟨pos', rfl⟩ := exists_last_token hts
      exact ⟨_, (Spells.identifier pos' name).loosen hslot (Nat.le_refl 8), by simp [same]⟩
  | number pos digits =>
      obtain ⟨pos', rfl⟩ := exists_last_token hts
      refine ⟨_, (Spells.number pos' digits).loosen hslot (Nat.le_refl 8), ?_⟩
      rw [same]
      exact Decimal.beq_self_read digits.toList
  | string pos text =>
      obtain ⟨pos', rfl⟩ := exists_last_token hts
      exact ⟨_, (Spells.string pos' text).loosen hslot (Nat.le_refl 8), by simp [same]⟩
  | operation op pos opPos hle hleft hright ihleft ihright =>
      have hsix := level_le_six op
      obtain ⟨us, rest, rfl, hus, hrest⟩ := List.map_eq_append_iff.mp hts
      obtain ⟨pos', vs, rfl, hvs⟩ := exists_token hrest
      obtain ⟨l, hl, hlsame⟩ := ihleft (by omega) hus
      obtain ⟨r, hr, hrsame⟩ := ihright (by omega) hvs
      refine ⟨_, (Spells.binary op pos' hl hr).loosen hle (by omega), ?_⟩
      simp [same, hlsame, hrsame]
  | unary s pos hle hoperand ih =>
      obtain ⟨pos', us, rfl, hus⟩ := exists_token hts
      obtain ⟨m, hm, hsame⟩ := ih (by omega) hus
      refine ⟨_, (Spells.sign s pos' hm).loosen hle (by omega), ?_⟩
      simp [same, hsame]
  | assignment pos htarget hvalue ihtarget ihvalue =>
      obtain ⟨us, rest, rfl, hus, hrest⟩ := List.map_eq_append_iff.mp hts
      obtain ⟨pos', vs, rfl, hvs⟩ := exists_token hrest
      obtain ⟨t, ht, htsame⟩ := ihtarget (by omega) hus
      obtain ⟨v, hv, hvsame⟩ := ihvalue (by omega) hvs
      refine ⟨_, Spells.assign pos' ht hv, ?_⟩
      simp [same, htsame, hvsame]

theorem StatementWritten.exists_statement
    {n : Node} {ws : List Lexeme} {ts : List Token}
    (h : StatementWritten n ws)
    (hts : ts.map Token.lexeme = ws) :
    ∃ s : Statement, s.yield = ts ∧ s.node.same n = true ∧ s.isBare = false := by
  cases h with
  | unset pos name namePos =>
      obtain ⟨keyword, us, rfl, hus⟩ := exists_token hts
      obtain ⟨namePos', vs, rfl, hvs⟩ := exists_token hus
      obtain ⟨semicolon, rfl⟩ := exists_last_token hvs
      exact ⟨.unset keyword name namePos' semicolon, rfl,
        by simp [Statement.node, same], rfl⟩
  | set pos name namePos constant hvalue =>
      obtain ⟨keyword, us, rfl, hus⟩ := exists_token hts
      obtain ⟨namePos', vs, rfl, hvs⟩ := exists_token hus
      obtain ⟨equals, rest, rfl, hrest⟩ := exists_token hvs
      obtain ⟨xs, last, rfl, hxs, hlast⟩ := List.map_eq_append_iff.mp hrest
      obtain ⟨semicolon, rfl⟩ := exists_last_token hlast
      obtain ⟨m, ⟨d, rfl, rfl⟩, hsame⟩ := hvalue.exists_spells (Nat.zero_le 8) hxs
      exact ⟨.set constant keyword name namePos' equals d semicolon, rfl,
        by simp [Statement.node, same, hsame], rfl⟩
  | expression hn =>
      obtain ⟨us, last, rfl, hus, hlast⟩ := List.map_eq_append_iff.mp hts
      obtain ⟨semicolon, rfl⟩ := exists_last_token hlast
      obtain ⟨m, ⟨d, rfl, rfl⟩, hsame⟩ := hn.exists_spells (Nat.zero_le 8) hus
      exact ⟨.expression d (some semicolon), rfl, hsame, rfl⟩

theorem BodyWritten.exists_program
    {body : List Node} {ws : List Lexeme} {ts : List Token}
    (h : BodyWritten body ws)
    (hts : ts.map Token.lexeme = ws) :
    ∃ p : Program, p.yield = ts ∧ sameAll p.nodes body = true ∧
      ∀ s ∈ p, s.isBare = false := by
  induction h generalizing ts with
  | nil =>
      obtain rfl := List.map_eq_nil_iff.mp hts
      exact ⟨[], rfl, by simp [Program.nodes, sameAll], by simp⟩
  | cons hstatement hbody ih =>
      obtain ⟨us, vs, rfl, hus, hvs⟩ := List.map_eq_append_iff.mp hts
      obtain ⟨s, rfl, hsame, hbare⟩ := hstatement.exists_statement hus
      obtain ⟨p, rfl, hall, hp⟩ := ih hvs
      refine ⟨s :: p, Program.yield_cons s p, ?_, ?_⟩
      · simp only [Program.nodes] at hall
        simp [Program.nodes, sameAll, hsame, hall]
      · exact List.forall_mem_cons.mpr ⟨hbare, hp⟩

/-- A program of statements with semicolons is settled. -/
theorem settled_of_no_bare
    {p : Program}
    (hp : ∀ s ∈ p, s.isBare = false) :
    p.Settled := by
  induction p with
  | nil => exact List.isChain_nil
  | cons s p ih =>
      have htail := ih (fun t ht => hp t (List.mem_cons_of_mem s ht))
      refine List.IsChain.cons htail ?_
      intro t _ hbare
      rw [hp s List.mem_cons_self] at hbare
      cases hbare

/-- No conditional is written. -/
theorem Written.not_conditional
    {slot : Nat} {n : Node} {ws : List Lexeme}
    (h : Written slot n ws)
    (branch : Branch) :
    .conditional branch ∉ ws := by
  induction h with
  | paren h ih => simp [ih]
  | identifier pos name => simp
  | number pos digits => simp
  | string pos text => simp
  | operation op pos opPos hle hleft hright ihleft ihright => simp [ihleft, ihright]
  | unary s pos hle hoperand ih => simp [ih]
  | assignment pos htarget hvalue ihtarget ihvalue => simp [ihtarget, ihvalue]

theorem BodyWritten.not_conditional
    {body : List Node} {ws : List Lexeme}
    (h : BodyWritten body ws)
    (branch : Branch) :
    .conditional branch ∉ ws := by
  induction h with
  | nil => simp
  | cons hstatement hbody ih =>
      cases hstatement with
      | unset pos name namePos => simp [ih]
      | set pos name namePos constant hvalue => simp [ih, hvalue.not_conditional branch]
      | expression hn => simp [ih, hn.not_conditional branch]

/-- All lexemes can be spelled. -/
def AllSpelled (ws : List Lexeme) : Prop :=
  ∀ lexeme ∈ ws, ∃ w, lexeme.Spelled w

theorem allSpelled_append
    {us vs : List Lexeme}
    (hus : AllSpelled us)
    (hvs : AllSpelled vs) :
    AllSpelled (us ++ vs) := by
  intro lexeme hlexeme
  rcases List.mem_append.mp hlexeme with h | h
  · exact hus lexeme h
  · exact hvs lexeme h

theorem allSpelled_cons
    {lexeme : Lexeme} {w : List Char} {ws : List Lexeme}
    (hw : lexeme.Spelled w)
    (hws : AllSpelled ws) :
    AllSpelled (lexeme :: ws) := by
  exact List.forall_mem_cons.mpr ⟨⟨w, hw⟩, hws⟩

theorem allSpelled_nil :
    AllSpelled [] := by
  exact List.forall_mem_nil _

theorem allSpelled_paren
    {ws : List Lexeme}
    (hws : AllSpelled ws) :
    AllSpelled (.openParen :: (ws ++ [.closeParen])) := by
  exact allSpelled_cons rfl (allSpelled_append hws (allSpelled_cons rfl allSpelled_nil))

/-- A well-formed expression can be written so that it stands in every slot. -/
theorem exists_written :
    (n : Node) → n.IsExpression → ∃ ws, (∀ slot, Written slot n ws) ∧ AllSpelled ws
  | .identifier pos name, h =>
      ⟨_, fun _ => .identifier pos name, allSpelled_cons ⟨rfl, h.1, h.2⟩ allSpelled_nil⟩
  | .number pos x, h => by
      obtain ⟨digits, hdigits, rfl⟩ := h
      refine ⟨[.number (String.ofList digits)], ?_,
        allSpelled_cons (w := digits) ⟨?_, hdigits⟩ allSpelled_nil⟩
      · intro slot
        have hwritten := @Written.number slot pos (String.ofList digits)
        rwa [String.toList_ofList] at hwritten
      · rw [String.toList_ofList]
  | .string pos text, h =>
      ⟨_, fun _ => .string pos text, allSpelled_cons ⟨rfl, h⟩ allSpelled_nil⟩
  | .operation family pos symbol opPos left right, h => by
      obtain ⟨⟨op, rfl, rfl⟩, hleft, hright⟩ := h
      obtain ⟨us, hus, husSpelled⟩ := exists_written left hleft
      obtain ⟨vs, hvs, hvsSpelled⟩ := exists_written right hright
      refine ⟨.openParen :: ((us ++ .operator (.binary op) :: vs) ++ [.closeParen]), ?_,
        ?_⟩
      · intro slot
        exact .paren (.operation op pos opPos (Nat.zero_le _) (hus _) (hvs _))
      · exact allSpelled_paren
          (allSpelled_append husSpelled (allSpelled_cons rfl hvsSpelled))
  | .unary pos symbol operand, h => by
      obtain ⟨⟨s, rfl⟩, hoperand⟩ := h
      obtain ⟨ws, hws, hspelled⟩ := exists_written operand hoperand
      refine ⟨.openParen :: ((.operator s.operator :: ws) ++ [.closeParen]), ?_, ?_⟩
      · intro slot
        exact .paren (.unary s pos (Nat.zero_le _) (hws _))
      · exact allSpelled_paren (allSpelled_cons rfl hspelled)
  | .assignment pos target value, h => by
      obtain ⟨htarget, hvalue⟩ := h
      obtain ⟨us, hus, husSpelled⟩ := exists_written target htarget
      obtain ⟨vs, hvs, hvsSpelled⟩ := exists_written value hvalue
      refine ⟨.openParen :: ((us ++ .operator .assign :: vs) ++ [.closeParen]), ?_, ?_⟩
      · intro slot
        exact .paren (.assignment pos (hus _) (hvs _))
      · exact allSpelled_paren
          (allSpelled_append husSpelled (allSpelled_cons rfl hvsSpelled))

theorem exists_statementWritten
    {n : Node}
    (h : n.IsStatement) :
    ∃ ws, StatementWritten n ws ∧ AllSpelled ws := by
  have hsemicolon : AllSpelled [.semicolon] := allSpelled_cons rfl allSpelled_nil
  cases n with
  | declaration pos name namePos constant value =>
      cases value with
      | none =>
          obtain ⟨hname, rfl⟩ := h
          exact ⟨_, .unset pos name namePos,
            allSpelled_cons rfl (allSpelled_cons ⟨rfl, hname.1, hname.2⟩ hsemicolon)⟩
      | some value =>
          obtain ⟨hname, hvalue⟩ := h
          obtain ⟨ws, hws, hspelled⟩ := exists_written value hvalue
          refine ⟨_, .set pos name namePos constant (hws 0), ?_⟩
          have hkeyword : (Lexeme.declare constant).Spelled
              (Lexeme.declare constant).text.toList := rfl
          exact allSpelled_cons hkeyword (allSpelled_cons ⟨rfl, hname.1, hname.2⟩
            (allSpelled_cons rfl (allSpelled_append hspelled hsemicolon)))
  | _ =>
      obtain ⟨ws, hws, hspelled⟩ := exists_written _ h
      exact ⟨_, .expression (hws 0), allSpelled_append hspelled hsemicolon⟩

theorem exists_bodyWritten
    {body : List Node}
    (h : ∀ statement ∈ body, statement.IsStatement) :
    ∃ ws, BodyWritten body ws ∧ AllSpelled ws := by
  induction body with
  | nil => exact ⟨[], .nil, allSpelled_nil⟩
  | cons n body ih =>
      obtain ⟨us, hus, husSpelled⟩ := exists_statementWritten (h n List.mem_cons_self)
      obtain ⟨vs, hvs, hvsSpelled⟩ := ih (fun m hm => h m (List.mem_cons_of_mem n hm))
      exact ⟨us ++ vs, .cons hus hvs, allSpelled_append husSpelled hvsSpelled⟩

/-- A text that writes a program is read, and its tree is the program up to positions. -/
theorem exists_parse_of_renders
    {pos : Pos} {body : List Node} {text : String}
    (h : Renders (.program pos body) text) :
    ∃ tree, parse text = .ok tree ∧ tree.same (.program pos body) = true := by
  obtain ⟨ws, hbody, hspaced⟩ := h
  have hapart := Lexeme.isChain_apart_of_not_mem (hbody.not_conditional .otherwise)
  obtain ⟨stream, hread, hlexemes⟩ := hspaced.exists_read hapart .start
  obtain ⟨p, hyield, hsame, hbare⟩ := hbody.exists_program hlexemes
  refine ⟨.program .unknown p.nodes, ?_, ?_⟩
  · rw [parse_of_tokenize hread]
    exact toProgram_eq_of_settled (settled_of_no_bare hbare) hyield
  · rw [same]
    exact hsame

/-- A well-formed program can be written, and however it is written, it is read back up
to positions. -/
theorem parse_rendering
    {t : Node}
    (ht : t.IsProgram) :
    (∃ text, t.Renders text) ∧
      ∀ text, t.Renders text → ∃ tree, parse text = .ok tree ∧ tree.same t = true := by
  cases t with
  | program pos body =>
      constructor
      · obtain ⟨ws, hbody, hspelled⟩ := exists_bodyWritten ht
        obtain ⟨cs, hcs⟩ := Lexeme.exists_spaced hspelled
        refine ⟨String.ofList cs, ws, hbody, ?_⟩
        rwa [String.toList_ofList]
      · intro text htext
        exact exists_parse_of_renders htext
  | _ => cases ht

/-- The difference of one and a difference, with one redundant pair of parentheses. -/
theorem parse_rendering_difference :
    ∃ tree,
      parse " ( 1 ) - ( 2 - x ) ;" = .ok tree ∧
      tree.same (.program .unknown
        [.operation .arithmetic .unknown "-" .unknown
          (.number .unknown (Decimal.read ['1']))
          (.operation .arithmetic .unknown "-" .unknown
            (.number .unknown (Decimal.read ['2']))
            (.identifier .unknown "x"))]) = true := by
  have hone : Lexeme.IsNumeral ['1'] :=
    ⟨List.all_eq_true.mp rfl, by decide, '1', List.mem_cons_self, rfl⟩
  have htwo : Lexeme.IsNumeral ['2'] :=
    ⟨List.all_eq_true.mp rfl, by decide, '2', List.mem_cons_self, rfl⟩
  have hx : Lexeme.IsName "x" := ⟨⟨by decide, List.all_eq_true.mp rfl⟩, by decide⟩
  have hwritten : BodyWritten
      [.operation .arithmetic .unknown "-" .unknown (.number .unknown (Decimal.read ['1']))
        (.operation .arithmetic .unknown "-" .unknown
          (.number .unknown (Decimal.read ['2']))
          (.identifier .unknown "x"))]
      [.openParen, .number "1", .closeParen, .operator (.binary (.arith .sub)),
        .openParen, .number "2", .operator (.binary (.arith .sub)), .identifier "x",
        .closeParen, .semicolon] :=
    .cons (.expression (.operation (.arith .sub) .unknown .unknown (Nat.zero_le _)
      (.paren (.number .unknown "1"))
      (.paren (.operation (.arith .sub) .unknown .unknown
        (Nat.zero_le _) (.number .unknown "2")
        (.identifier .unknown "x"))))) .nil
  have hdetached : Lexeme.Detached
      [.openParen, .number "1", .closeParen, .operator (.binary (.arith .sub)),
        .openParen, .number "2", .operator (.binary (.arith .sub)), .identifier "x",
        .closeParen, .semicolon]
      [' ', '(', ' ', '1', ' ', ')', ' ', '-', ' ', '(', ' ', '2', ' ', '-', ' ', 'x', ' ',
        ')', ' ', ';'] :=
    .cons (w := ['(']) rfl <| .cons (w := ['1']) ⟨rfl, hone⟩ <| .cons (w := [')']) rfl <|
    .cons (w := ['-']) rfl <| .cons (w := ['(']) rfl <| .cons (w := ['2']) ⟨rfl, htwo⟩ <|
    .cons (w := ['-']) rfl <|
      .cons (w := ['x']) ⟨rfl, hx.1, hx.2⟩ <| .cons (w := [')']) rfl <|
    .cons (w := [';']) rfl .nil
  refine (parse_rendering ?_).2 _ ⟨_, hwritten, hdetached.1⟩
  intro statement hstatement
  obtain rfl := List.mem_singleton.mp hstatement
  exact ⟨⟨.arith .sub, rfl, rfl⟩, ⟨_, hone, rfl⟩, ⟨.arith .sub, rfl, rfl⟩,
    ⟨_, htwo, rfl⟩, hx⟩

end Node
end LetLang
