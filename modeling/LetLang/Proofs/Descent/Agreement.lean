import LetLang.Proofs.Descent.Completion

/-!
# The descent comes back with what the builder makes

A routine that reads an expression is compared with a builder whose frames wait for one:
with the node that comes of it in place of its tokens, the builder comes to the same. Where
the routine refuses a token, so does the builder. Since a routine may call another one
before it has taken a token, the proof is by induction on the number of tokens that are
left, and within one number from the tightest level of operators to the loosest. There are
at most ten calls from one token that is taken to the next.

So the descent always comes back, from every place on the list of tokens, and its calls go
no deeper than ten for each token that is left. No routine comes back with a node before it
has taken a token, the cursor never passes the mark for the end of the text, and what the
descent makes of all tokens is what the builder makes.
-/

namespace LetLang
namespace Descent

open Builder

/-- With `node` in place of the tokens up to `rest`, the builder comes to the same,
if its frames wait for an expression of that level. And `rest` does not go on with
this expression. -/
def Reaches (finish : Pos) (n : Nat) (stage : Goal → List Frame → Stage)
    (ts : List Token) (node : Node)
    (rest : List Token) : Prop :=
  Apart n rest ∧
    ∀ done goal frames, Frame.Waits n frames →
      complete finish ⟨done, stage goal frames⟩ ts =
        complete finish ⟨done, .operator goal frames node⟩ rest

/-- The builder refuses the tokens, if its frames wait for an expression of that level. -/
def Fails (finish : Pos) (n : Nat) (stage : Goal → List Frame → Stage)
    (ts : List Token) (fault : Fault) : Prop :=
  ∀ done goal frames, Frame.Waits n frames →
    complete finish ⟨done, stage goal frames⟩ ts = .error fault

/-- Where the tokens `ts` are left, the computation takes some of them for an expression of
that level, as the builder does. -/
def Reads (s : TokenStream) (n : Nat) (m : Descent Node) (before ts : List Token) : Prop :=
  Ends m before ts (fun node rest => rest.length < ts.length ∧
    Reaches s.finish n .operand ts node rest)
    (Fails s.finish n .operand ts)

/-- The calls that a routine makes within each other, itself included, before a token
is taken. -/
def Routine.height : Routine → Nat
  | .level n => 3 + (7 - n)
  | .unary => 2
  | .primary => 1

/-- The routine reads an expression of that level wherever fewer tokens are left, if its
calls may go deep enough. -/
def ReadsBelow (s : TokenStream) (n : Nat) (routine : Routine) (bound : Nat) : Prop :=
  ∀ depth before ts, s.tokens = before ++ ts → ts.length < bound →
    10 * ts.length + routine.height ≤ depth →
    Reads s n (read s depth routine) before ts

variable {s : TokenStream} {before ts : List Token} {depth : Nat}

/-- What the builder makes of `ts` in one state and of `rest` in another is the same, so
the comparison may start from either. -/
theorem Ends.of_complete_eq
    {m : Descent Node} {n : Nat} {stage stage' : Goal → List Frame →
      Stage} {rest : List Token}
    (h : Ends m before rest (Reaches s.finish n stage' rest)
      (Fails s.finish n stage' rest))
    (heq : ∀ done goal frames, Frame.Waits n frames →
      complete s.finish ⟨done, stage goal frames⟩ ts =
        complete s.finish ⟨done, stage' goal frames⟩ rest) :
    Ends m before rest (Reaches s.finish n stage ts) (Fails s.finish n stage ts) := by
  refine h.mono ?_ ?_
  · rintro node last _ ⟨hlast, hnode⟩
    exact ⟨hlast, fun done goal frames hframes =>
      (heq done goal frames hframes).trans (hnode done goal frames hframes)⟩
  · intro fault hfault done goal frames hframes
    exact (heq done goal frames hframes).trans (hfault done goal frames hframes)

section Routines

theorem apart_of_six_lt
    {n : Nat}
    (hn : 6 < n)
    (ts : List Token) :
    Apart n ts := by
  intro t _
  exact Lexeme.not_extends_of_six_lt hn

/-- A token that is an operand by itself. -/
theorem ends_literal
    {t : Token} {rest : List Token} {node : Node} {refused : Fault → Prop}
    (h : s.tokens = before ++ t :: rest)
    (hnode : ∀ done goal frames, complete s.finish
      ⟨done, .operand goal frames⟩ (t :: rest) =
      complete s.finish ⟨done, .operator goal frames node⟩ rest) :
    Ends (take s >>= fun _ => pure node) before (t :: rest)
      (fun node left => left.length < (t :: rest).length ∧
        Reaches s.finish 7 .operand (t :: rest) node left) refused := by
  refine Ends.take h rfl fun _ =>
    Ends.pure ⟨Nat.lt_succ_self _, apart_of_six_lt (by omega) rest, ?_⟩
  exact fun done goal frames _ => hnode done goal frames

/-- An operand is read if there is no sign before it. -/
theorem ends_primary
    (h : s.tokens = before ++ ts)
    (ih : ReadsBelow s 0 (.level 0) ts.length)
    (hdepth : 10 * ts.length < depth) :
    Ends (read s depth .primary) before ts
      (fun node rest => rest.length < ts.length ∧ Reaches s.finish 7 .operand ts node rest)
      fun fault => (∀ t ∈ ts.head?, ∀ op, t.lexeme = .operator op → op.isSign = false) →
        Fails s.finish 7 .operand ts fault := by
  obtain ⟨depth, rfl⟩ := Nat.exists_eq_succ_of_ne_zero (Nat.ne_zero_of_lt hdepth)
  rw [read]
  refine Ends.look h ?_
  split
  · rename_i hhead
    obtain ⟨rest, rfl⟩ := List.head?_eq_some_iff.mp hhead
    exact ends_literal h fun _ _ _ => rfl
  · rename_i hhead
    obtain ⟨rest, rfl⟩ := List.head?_eq_some_iff.mp hhead
    exact ends_literal h fun _ _ _ => rfl
  · rename_i hhead
    obtain ⟨rest, rfl⟩ := List.head?_eq_some_iff.mp hhead
    exact ends_literal h fun _ _ _ => rfl
  · rename_i pos hhead
    obtain ⟨rest, rfl⟩ := List.head?_eq_some_iff.mp hhead
    have hcalls : 10 * rest.length + (Routine.level 0).height ≤ depth := by
      simp only [List.length_cons, Routine.height] at hdepth ⊢
      omega
    refine Ends.take h rfl fun hrest =>
      Ends.bind hrest (ih depth _ rest hrest (Nat.lt_succ_self _) hcalls) ?_ ?_
    · rintro inner taken left hleft ⟨hlt, hapart, hinner⟩
      have hopen : ∀ done goal frames, complete s.finish ⟨done, .operand goal frames⟩
          (⟨.openParen, pos⟩ :: rest) =
          complete s.finish ⟨done, .operator goal (.paren :: frames) inner⟩ left :=
            fun done goal frames =>
        hinner done goal (.paren :: frames) (Frame.waits_paren 0 frames)
      refine Ends.expect hleft ?_ ?_
      · rintro ⟨lexeme, pos'⟩ last rfl haccepts _
        obtain rfl : lexeme = .closeParen := eq_of_beq haccepts
        refine Ends.pure ⟨?_, apart_of_six_lt (by omega) last,
          fun done goal frames _ => hopen done goal frames⟩
        simp only [List.length_cons] at hlt ⊢
        omega
      · intro hrefused _ done goal frames _
        rw [hopen]
        exact complete_paren_refused s done goal frames inner hapart fun t ht =>
          ne_of_beq_false (hrefused t ht)
    · intro fault hfault _ done goal frames _
      exact hfault done goal (.paren :: frames) (Frame.waits_paren 0 frames)
  · rename_i hidentifier hnumber hstring hparen
    refine Ends.throw fun hsign done goal frames _ =>
      complete_operand_refused s done goal frames ?_ hsign
    rintro ⟨lexeme, pos⟩ ht
    cases lexeme with
    | identifier name => exact absurd ht (hidentifier name pos)
    | number digits => exact absurd ht (hnumber digits pos)
    | string text => exact absurd ht (hstring text pos)
    | openParen => exact absurd ht (hparen pos)
    | _ => rfl

theorem reads_unary
    (h : s.tokens = before ++ ts)
    (ihLevel : ReadsBelow s 0 (.level 0) ts.length)
    (ihUnary : ReadsBelow s 7 .unary ts.length)
    (hdepth : 10 * ts.length + 1 < depth) :
    Reads s 7 (read s depth .unary) before ts := by
  obtain ⟨depth, rfl⟩ := Nat.exists_eq_succ_of_ne_zero (Nat.ne_zero_of_lt hdepth)
  have hprimary := ends_primary h ihLevel (Nat.lt_of_succ_lt_succ hdepth)
  have hwaits : ∀ frames, Frame.Waits 7 frames := Frame.waits_of_six_lt (by omega)
  rw [read]
  refine Ends.look h ?_
  split
  · rename_i op pos hhead
    split
    · rename_i hsign
      obtain ⟨rest, rfl⟩ := List.head?_eq_some_iff.mp hhead
      have hcalls : 10 * rest.length + Routine.unary.height ≤ depth := by
        simp only [List.length_cons, Routine.height] at hdepth ⊢
        omega
      refine Ends.take h rfl fun hrest =>
        Ends.bind hrest (ihUnary depth _ rest hrest (Nat.lt_succ_self _) hcalls) ?_ ?_
      · rintro operand taken left _ ⟨hlt, hapart, hoperand⟩
        refine Ends.pure ⟨Nat.lt_succ_of_lt hlt, hapart, fun done goal frames _ => ?_⟩
        rw [complete_sign s.finish done goal hsign, hoperand done goal _ (hwaits _),
          complete_fill s.finish done goal frames operand rfl fun _ _ => rfl]
        rfl
      · intro fault hfault done goal frames _
        rw [complete_sign s.finish done goal hsign]
        exact hfault done goal _ (hwaits _)
    · rename_i hsign
      refine hprimary.mono (fun _ _ _ hnode => hnode) fun fault hfault => hfault ?_
      intro t ht op' hop
      rw [hhead] at ht
      cases ht
      cases hop
      exact Bool.eq_false_iff.mpr hsign
  · rename_i hoperator
    refine hprimary.mono (fun _ _ _ hnode => hnode) fun fault hfault => hfault ?_
    rintro ⟨lexeme, pos⟩ ht op rfl
    exact absurd ht (hoperator op pos)

/-- The operators of one level are read in order, after an operand that tighter operators
do not go on with. -/
theorem ends_chain
    {n bound : Nat}
    (hn : 0 < n)
    (ih : ReadsBelow s (n + 1) (.level (n + 1)) bound)
    (left : Node)
    (h : s.tokens = before ++ ts)
    (hbound : ts.length ≤ bound)
    (hapart : Apart (n + 1) ts)
    (hdepth : 10 * ts.length < depth) :
    Ends (chain s depth n left) before ts
      (Reaches s.finish n (fun goal frames => .operator goal frames left) ts)
      (Fails s.finish n (fun goal frames => .operator goal frames left) ts) := by
  induction depth generalizing before ts left with
  | zero => exact absurd hdepth (Nat.not_lt_zero _)
  | succ depth ihChain =>
  rw [chain]
  refine Ends.look h ?_
  split
  · rename_i op pos hhead
    obtain ⟨rest, rfl⟩ := List.head?_eq_some_iff.mp hhead
    split
    · rename_i hlevel
      subst hlevel
      simp only [List.length_cons] at hbound hdepth
      have hcalls : 10 * rest.length + (Routine.level (op.level + 1)).height ≤ depth := by
        simp only [Routine.height]
        omega
      refine Ends.take h rfl fun hrest =>
        Ends.bind hrest (ih depth _ rest hrest hbound hcalls) ?_ ?_
      · rintro right taken last hlast ⟨hlt, hlastApart, hright⟩
        have hstep : ∀ done goal frames, Frame.Waits op.level frames →
            complete s.finish ⟨done, .operator goal frames left⟩
              (⟨.operator (.binary op), pos⟩ :: rest) =
              complete s.finish ⟨done, .operator goal frames
                (.operation op.family left.pos op.symbol pos left right)⟩ last := by
          intro done goal frames hwaits
          rw [complete_binary s.finish done goal left hwaits,
            hright done goal _ (Frame.waits_binary op pos left frames),
            complete_fill s.finish done goal frames right rfl fun t ht =>
              Frame.takes_binary pos left (hlastApart t ht)]
          rfl
        exact (ihChain _ hlast (by omega) hlastApart (by omega)).of_complete_eq hstep
      · intro fault hfault done goal frames hwaits
        rw [complete_binary s.finish done goal left hwaits]
        exact hfault done goal _ (Frame.waits_binary op pos left frames)
    · rename_i hlevel
      -- An operator of another level is a looser one, because the operand is apart from
      -- the tighter ones.
      refine Ends.pure ⟨?_, fun _ _ _ _ => rfl⟩
      rintro t ht hextends
      cases ht
      exact hapart _ rfl (Nat.lt_of_le_of_ne hextends (Ne.symm hlevel))
  · rename_i hbinary
    refine Ends.pure ⟨?_, fun _ _ _ _ => rfl⟩
    rintro ⟨lexeme, pos⟩ ht hextends
    rcases hextends.eq_operator with ⟨op, rfl, _⟩ | ⟨_, hzero⟩
    · exact hbinary op pos ht
    · omega

theorem reads_level_succ
    {n : Nat}
    (hn : n < 6)
    (h : s.tokens = before ++ ts)
    (hfirst : Reads s (n + 2) (read s depth (.level (n + 2))) before ts)
    (ih : ReadsBelow s (n + 2) (.level (n + 2)) ts.length)
    (hdepth : 10 * ts.length ≤ depth) :
    Reads s (n + 1) (read s (depth + 1) (.level (n + 1))) before ts := by
  rw [read, if_pos hn]
  have hwaits : ∀ frames, Frame.Waits (n + 1) frames →
      Frame.Waits (n + 2) frames := fun frames =>
    Frame.Waits.mono (Nat.le_succ _)
  refine Ends.bind h hfirst ?_ ?_
  · rintro first taken rest hrest ⟨hlt, hapart, hoperand⟩
    have hchain := ends_chain (Nat.succ_pos n) ih first hrest (Nat.le_of_lt hlt) hapart
      (show 10 * rest.length < depth by omega)
    refine (hchain.of_complete_eq fun done goal frames hframes =>
      ?_).mono ?_ fun _ hfault => hfault
    · exact hoperand done goal frames (hwaits frames hframes)
    · exact fun node last hle hnode => ⟨Nat.lt_of_le_of_lt hle hlt, hnode⟩
  · intro fault hfault done goal frames hframes
    exact hfault done goal frames (hwaits frames hframes)

theorem reads_level_zero
    (h : s.tokens = before ++ ts)
    (hfirst : Reads s 1 (read s depth (.level 1)) before ts)
    (ih : ReadsBelow s 0 (.level 0) ts.length)
    (hdepth : 10 * ts.length ≤ depth) :
    Reads s 0 (read s (depth + 1) (.level 0)) before ts := by
  rw [read]
  have hwaits : ∀ frames, Frame.Waits 0 frames → Frame.Waits 1 frames := fun frames =>
    Frame.Waits.mono (Nat.le_succ _)
  refine Ends.bind h hfirst ?_ ?_
  · rintro left taken rest hrest ⟨hlt, hapart, hoperand⟩
    refine Ends.look hrest ?_
    split
    · rename_i pos hhead
      obtain ⟨right, rfl⟩ := List.head?_eq_some_iff.mp hhead
      rw [List.length_cons] at hlt
      have hcalls : 10 * right.length + (Routine.level 0).height ≤ depth := by
        simp only [Routine.height]
        omega
      refine Ends.take hrest rfl fun hright =>
        Ends.bind hright (ih depth _ right hright (by omega) hcalls) ?_ ?_
      · rintro value taken' last _ ⟨hlt', hlast, hvalue⟩
        refine Ends.pure ⟨by omega, hlast, fun done goal frames hframes => ?_⟩
        rw [hoperand done goal frames (hwaits frames hframes),
          complete_assign s.finish done goal left hframes,
          hvalue done goal _ (Frame.waits_assign left frames),
          complete_fill s.finish done goal frames value rfl fun t ht =>
            Frame.takes_assign left (hlast t ht)]
        rfl
      · intro fault hfault done goal frames hframes
        rw [hoperand done goal frames (hwaits frames hframes),
          complete_assign s.finish done goal left hframes]
        exact hfault done goal _ (Frame.waits_assign left frames)
    · rename_i hassign
      refine Ends.pure ⟨hlt, ?_, fun done goal frames hframes =>
        hoperand done goal frames (hwaits frames hframes)⟩
      rintro ⟨lexeme, pos⟩ ht hextends
      rcases hextends.eq_operator with ⟨op, rfl, _⟩ | ⟨rfl, _⟩
      · exact hapart _ ht op.level_pos
      · exact hassign pos ht
  · intro fault hfault done goal frames hframes
    exact hfault done goal frames (hwaits frames hframes)

/-- Beyond the tightest operators, the level makes no difference. -/
theorem Reads.of_six_lt
    {m : Descent Node} {n : Nat}
    (hn : 6 < n)
    (h : Reads s 7 m before ts) :
    Reads s n m before ts := by
  refine Ends.mono h ?_ ?_
  · rintro node rest _ ⟨hlt, _, hnode⟩
    exact ⟨hlt, apart_of_six_lt hn rest, fun done goal frames _ =>
      hnode done goal frames (Frame.waits_of_six_lt (by omega) frames)⟩
  · intro fault hfault done goal frames _
    exact hfault done goal frames (Frame.waits_of_six_lt (by omega) frames)

/--
Every level is read where some tokens are left, if every level and every operand with signs
is read where fewer are.
-/
theorem reads_level
    (h : s.tokens = before ++ ts)
    (ihLevel : ∀ n, ReadsBelow s n (.level n) ts.length)
    (hunary : ∀ depth, 10 * ts.length + 1 < depth →
      Reads s 7 (read s depth .unary) before ts)
    (k n : Nat)
    (hk : 7 ≤ n + k)
    (hdepth : 10 * ts.length + 2 + k < depth) :
    Reads s n (read s depth (.level n)) before ts := by
  obtain ⟨depth, rfl⟩ := Nat.exists_eq_succ_of_ne_zero (Nat.ne_zero_of_lt hdepth)
  -- From the tightest level on, since each calls the next before it has taken anything.
  induction k generalizing depth n with
  | zero =>
      obtain ⟨n, rfl⟩ : ∃ m, n = m + 1 := ⟨n - 1, by omega⟩
      rw [read, if_neg (by omega)]
      exact (hunary depth (by omega)).of_six_lt (by omega)
  | succ k ihTighter =>
      obtain ⟨depth, rfl⟩ : ∃ d, depth = d + 1 := ⟨depth - 1, by omega⟩
      have hnext := ihTighter (n + 1) (by omega) depth (by omega)
      cases n with
      | zero => exact reads_level_zero h hnext (ihLevel 0) (by omega)
      | succ n =>
          by_cases hn : n < 6
          · exact reads_level_succ hn h hnext (ihLevel (n + 2)) (by omega)
          · rw [read, if_neg hn]
            exact (hunary (depth + 1) (by omega)).of_six_lt (by omega)

/-- Every routine that starts with an operand reads it, whatever tokens are left. -/
theorem reads_all
    (h : s.tokens = before ++ ts) :
    (∀ n depth, 10 * ts.length + (Routine.level n).height ≤ depth →
      Reads s n (read s depth (.level n)) before ts) ∧
      ∀ depth, 10 * ts.length + 1 < depth → Reads s 7 (read s depth .unary) before ts := by
  -- Behind a token that has been taken, a sign or a parenthesis calls any level again:
  -- these calls are below the bound.
  induction hlength : ts.length using Nat.strong_induction_on generalizing before ts with
  | _ length ih =>
  subst hlength
  have ihLevel : ∀ n, ReadsBelow s n (.level n) ts.length :=
    fun n depth before' ts' h' hlt =>
    (ih ts'.length hlt h' rfl).1 n depth
  have ihUnary : ReadsBelow s 7 .unary ts.length :=
    fun depth before' ts' h' hlt => (ih ts'.length hlt h' rfl).2 depth
  have hunary : ∀ depth, 10 * ts.length + 1 < depth →
      Reads s 7 (read s depth .unary) before ts := fun depth =>
    reads_unary h (ihLevel 0) ihUnary
  refine ⟨fun n depth hdepth => reads_level h ihLevel hunary (7 - n) n (by omega) ?_,
    hunary⟩
  simp only [Routine.height] at hdepth
  omega

/-- An expression is read if there are ten calls for each token that is left and for the
end of the text. -/
theorem reads_expression
    (h : s.tokens = before ++ ts)
    (hdepth : 10 * (ts.length + 1) ≤ depth) :
    Reads s 0 (read s depth (.level 0)) before ts := by
  refine (reads_all h).1 0 depth ?_
  simp only [Routine.height]
  omega

end Routines

section Statements

/-- Where the tokens `ts` are left, the computation takes some of them for the rest of a
statement, as the builder does at that stage. -/
def Completes (s : TokenStream) (stage : Stage) (m : Descent Node)
    (before ts : List Token) : Prop :=
  Ends m before ts
    (fun node rest => rest.length < ts.length ∧
      ∀ done, complete s.finish ⟨done, stage⟩ ts =
        complete s.finish ⟨node :: done, .ready⟩ rest)
    fun fault => ∀ done, complete s.finish ⟨done, stage⟩ ts = .error fault

theorem completes_initializer
    (pos : Pos) (constant : Bool) (name : String) (namePos : Pos)
    (h : s.tokens = before ++ ts)
    (hdepth : 10 * (ts.length + 1) ≤ depth) :
    Completes s (.value pos name namePos constant)
      (initializer s depth pos constant name namePos) before ts := by
  rw [initializer]
  refine Ends.look h ?_
  split
  · rename_i hhead
    obtain ⟨rest, rfl⟩ := List.head?_eq_some_iff.mp hhead
    cases constant with
    | true => exact Ends.throw fun _ => rfl
    | false => exact Ends.take h rfl fun _ => Ends.pure ⟨Nat.lt_succ_self _, fun _ => rfl⟩
  · rename_i hsemicolon
    refine Ends.expect h ?_ ?_
    · rintro ⟨lexeme, signPos⟩ rest rfl haccepts hrest
      obtain rfl : lexeme = .operator .assign := eq_of_beq haccepts
      rw [List.length_cons] at hdepth
      refine Ends.bind hrest
        (reads_expression hrest (show 10 * (rest.length + 1) ≤ depth by omega)) ?_ ?_
      · rintro value taken left hleft ⟨hlt, hapart, hvalue⟩
        have hnode : ∀ done,
            complete s.finish ⟨done, .value pos name namePos constant⟩
              (⟨.operator .assign, signPos⟩ :: rest) =
              complete s.finish ⟨done, .operator (.declaration pos name namePos constant)
                [] value⟩ left := fun done =>
          hvalue done (.declaration pos name namePos constant) [] (Frame.waits_nil 0)
        refine Ends.expect hleft ?_ ?_
        · rintro ⟨lexeme, endPos⟩ last rfl haccepts _
          obtain rfl : lexeme = .semicolon := eq_of_beq haccepts
          refine Ends.pure ⟨?_, hnode⟩
          simp only [List.length_cons] at hlt ⊢
          omega
        · intro hrefused done
          rw [hnode]
          exact complete_semicolon_refused s done pos name namePos
            constant value hapart fun t ht =>
            ne_of_beq_false (hrefused t ht)
      · intro fault hfault done
        exact hfault done (.declaration pos name namePos constant) [] (Frame.waits_nil 0)
    · intro hrefused done
      refine complete_value_refused s done pos name namePos constant ?_ fun t ht =>
        ne_of_beq_false (hrefused t ht)
      rintro ⟨lexeme, pos'⟩ ht rfl
      exact hsemicolon pos' ht

theorem completes_declaration
    {pos : Pos} {constant : Bool} {rest : List Token}
    (h : s.tokens = before ++ ⟨.declare constant, pos⟩ :: rest)
    (hdepth : 10 * (rest.length + 1) ≤ depth) :
    Completes s .ready (declaration s depth pos constant) before
      (⟨.declare constant, pos⟩ :: rest) := by
  rw [declaration]
  refine Ends.take h rfl fun hrest => Ends.expect hrest ?_ ?_
  · rintro ⟨lexeme, namePos⟩ left rfl haccepts hleft
    obtain ⟨name, rfl⟩ : ∃ name, lexeme = .identifier name := by
      cases lexeme with
      | identifier name => exact ⟨name, rfl⟩
      | _ => cases haccepts
    rw [List.length_cons] at hdepth
    refine (completes_initializer pos constant name namePos hleft (by omega)).mono ?_
      fun _ hfault => hfault
    rintro node last hle ⟨_, hnode⟩
    refine ⟨?_, hnode⟩
    simp only [List.length_cons]
    omega
  · intro hrefused done
    exact complete_name_refused s done pos constant hrefused

/-- A statement is read as the builder does when it is ready for one. At the end of the
text the builder is content without one. -/
theorem ends_statement
    (h : s.tokens = before ++ ts)
    (hdepth : 10 * (ts.length + 1) ≤ depth) :
    Ends (statement s depth) before ts
      (fun node rest => rest.length < ts.length ∧
        ∀ done, complete s.finish ⟨done, .ready⟩ ts =
          complete s.finish ⟨node :: done, .ready⟩ rest)
      fun fault => ts ≠ [] → ∀ done, complete s.finish
        ⟨done, .ready⟩ ts = .error fault := by
  rw [statement]
  refine Ends.look h ?_
  split
  · rename_i hhead
    obtain ⟨rest, rfl⟩ := List.head?_eq_some_iff.mp hhead
    rw [List.length_cons] at hdepth
    exact (completes_declaration h (by omega)).mono (fun _ _ _ hnode =>
      hnode) fun _ hfault _ => hfault
  · rename_i hhead
    obtain ⟨rest, rfl⟩ := List.head?_eq_some_iff.mp hhead
    exact Ends.throw fun _ _ => rfl
  · rename_i hdeclare hconditional
    have hready : ts ≠ [] → ∀ done,
        complete s.finish ⟨done, .ready⟩ ts =
          complete s.finish ⟨done, .operand .statement []⟩ ts := by
      intro hts done
      obtain ⟨⟨lexeme, pos⟩, rest, rfl⟩ := List.exists_cons_of_ne_nil hts
      refine complete_ready s.finish done rest ?_ ?_
      · rintro constant rfl
        exact hdeclare constant pos rfl
      · rintro branch rfl
        exact hconditional branch pos rfl
    refine Ends.bind h (reads_expression h hdepth) ?_ ?_
    · rintro value taken rest hrest ⟨hlt, hapart, hvalue⟩
      have hts : ts ≠ [] := List.ne_nil_of_length_pos (Nat.zero_lt_of_lt hlt)
      have hnode : ∀ done, complete s.finish ⟨done, .ready⟩ ts =
          complete s.finish ⟨done, .operator .statement [] value⟩ rest := fun done =>
        (hready hts done).trans (hvalue done .statement [] (Frame.waits_nil 0))
      refine Ends.look hrest ?_
      split
      · rename_i hhead
        obtain ⟨last, rfl⟩ := List.head?_eq_some_iff.mp hhead
        exact Ends.take hrest rfl fun _ => Ends.pure ⟨Nat.lt_of_succ_lt hlt, hnode⟩
      · rename_i hsemicolon
        refine Ends.pure ⟨hlt, fun done =>
          (hnode done).trans (complete_statement s.finish done value hapart ?_)⟩
        rintro ⟨lexeme, pos⟩ ht rfl
        exact hsemicolon pos ht
    · intro fault hfault hts done
      rw [hready hts]
      exact hfault done .statement [] (Frame.waits_nil 0)

/-- Statements are read up to the end of the text. -/
theorem ends_statements
    (done : List Node)
    (h : s.tokens = before ++ ts)
    (hdepth : 10 * (ts.length + 1) < depth) :
    Ends (statements s depth done.reverse) before ts
      (fun body rest => rest = [] ∧ complete s.finish ⟨done, .ready⟩ ts = .ok body)
      fun fault => complete s.finish ⟨done, .ready⟩ ts = .error fault := by
  induction depth generalizing before ts done with
  | zero => exact absurd hdepth (Nat.not_lt_zero _)
  | succ depth ih =>
  rw [statements]
  refine Ends.look h ?_
  cases ts with
  | nil => exact Ends.pure ⟨rfl, rfl⟩
  | cons t rest =>
      refine Ends.bind h (ends_statement h (Nat.le_of_lt_succ hdepth)) ?_ ?_
      · rintro node taken left hleft ⟨hlt, hnode⟩
        have hmore := ih (node :: done) hleft (by omega)
        rw [List.reverse_cons] at hmore
        refine hmore.mono ?_ ?_
        · rintro body last _ ⟨hlast, hbody⟩
          exact ⟨hlast, (hnode done).trans hbody⟩
        · intro fault hfault
          exact (hnode done).trans hfault
      · intro fault hfault
        exact hfault (List.cons_ne_nil t rest) done

theorem toProgram_eq_complete
    (s : TokenStream) :
    s.toProgram = (complete s.finish .start s.tokens).map (Node.program .unknown) := by
  rw [complete]
  change (Builder.start.run s.tokens).bind _ = _
  cases Builder.start.run s.tokens with
  | error fault => rfl
  | ok last =>
      change (last.finish s.finish).bind _ = (last.finish s.finish).map _
      cases last.finish s.finish with
      | error fault => rfl
      | ok body => rfl

/-- The descent reads the program that the builder builds, and it takes all tokens
for it. -/
theorem ends_program
    (s : TokenStream)
    (hdepth : 10 * (s.tokens.length + 1) < depth) :
    Ends (program s depth) [] s.tokens (fun node rest =>
      rest = [] ∧ s.toProgram = .ok node)
      fun fault => s.toProgram = .error fault := by
  have h : s.tokens = [] ++ s.tokens := rfl
  rw [program, toProgram_eq_complete]
  refine Ends.bind h (ends_statements [] h hdepth) ?_ ?_
  · rintro body taken rest _ ⟨hrest, hbody⟩
    refine Ends.pure ⟨hrest, ?_⟩
    rw [start, hbody]
    rfl
  · intro fault hfault
    rw [start, hfault]
    rfl

end Statements

/-- The cursor after as many tokens of a list, each of which has been taken once and
in order. -/
def cursorAt (s : TokenStream) (i : Nat) : Cursor := ⟨i, s.tokens.take i⟩

/--
From every place on the list of tokens the computation comes back with a result or a fault,
and the cursor has not left the list or gone back.
-/
def Advances (s : TokenStream) (m : Nat → Descent Node) : Prop :=
  ∀ i ≤ s.tokens.length, ∃ result k,
    -- The calls may go as deep as ten for each mark that is left on the list.
    (∀ depth, 10 * (s.tokens.length - i + 1) ≤ depth →
      (m depth).outcome (cursorAt s i) = some (Checked.answer result, cursorAt s k)) ∧
      i ≤ k ∧ k ≤ s.tokens.length ∧ ∀ node, result = .ok node → i < k

theorem cursorAt_length
    {before rest : List Token}
    (h : s.tokens = before ++ rest) :
    cursorAt s before.length = .behind before := by
  rw [cursorAt, h, List.take_left, Cursor.behind]

/-- A computation that ends has moved the cursor over some tokens of the list. -/
theorem Ends.exists_cursorAt
    {α : Type} {m : Descent α} {post : α → List Token → Prop} {refused : Fault → Prop}
    (h : Ends m before ts post refused)
    (htokens : s.tokens = before ++ ts) :
    ∃ result k,
      m.outcome (cursorAt s before.length) =
        some (Checked.answer result, cursorAt s k) ∧ before.length ≤ k ∧
        k ≤ s.tokens.length ∧ (∀ a, result = .ok a → post a (s.tokens.drop k)) ∧
        ∀ fault, result = .error fault → refused fault := by
  have hends : ∃ result taken rest, ts = taken ++ rest ∧
      m.outcome (.behind before) =
        some (Checked.answer result, .behind (before ++ taken)) ∧
      (∀ a, result = .ok a → post a rest) ∧
        ∀ fault, result = .error fault → refused fault := by
    cases h with
    | result hsplit houtcome hpost =>
        exact ⟨.ok _, _, _, hsplit, houtcome, by rintro _ ⟨⟩; exact hpost, by rintro _ ⟨⟩⟩
    | refusal hsplit houtcome hrefused =>
        exact ⟨.error _, _, _, hsplit, houtcome,
          by rintro _ ⟨⟩, by rintro _ ⟨⟩; exact hrefused⟩
  obtain ⟨result, taken, rest, rfl, houtcome, hpost, hrefused⟩ := hends
  have hsplit : s.tokens = before ++ taken ++ rest := by
    rw [htokens, List.append_assoc]
  have hdrop : s.tokens.drop (before ++ taken).length = rest := by
    rw [hsplit, List.drop_left]
  refine ⟨result, (before ++ taken).length, ?_, ?_, ?_, ?_, hrefused⟩
  · rw [cursorAt_length htokens, cursorAt_length hsplit, houtcome]
  · rw [List.length_append]
    exact Nat.le_add_right _ _
  · have hlength := congrArg List.length hsplit
    rw [List.length_append] at hlength
    omega
  · rw [hdrop]
    exact hpost

theorem advances_of_ends
    {m : Nat → Descent Node}
    (hsucc : ∀ depth, Within (m depth) (m (depth + 1)))
    (h : ∀ before ts, s.tokens = before ++ ts →
      Ends (m (10 * (ts.length + 1))) before ts (fun _ rest =>
        rest.length < ts.length) fun _ => True) :
    Advances s m := by
  intro i hi
  have hsplit : s.tokens = s.tokens.take i ++ s.tokens.drop i :=
    (List.take_append_drop i s.tokens).symm
  obtain ⟨result, k, houtcome, hle, hk, hpost, _⟩ := (h _ _ hsplit).exists_cursorAt hsplit
  rw [List.length_take_of_le hi] at houtcome hle
  rw [List.length_drop] at houtcome
  refine ⟨result, k, fun depth hdepth => Within.outcome_of_le hsucc hdepth houtcome, hle,
    hk, fun node hnode => ?_⟩
  have hlt := hpost node hnode
  rw [List.length_drop, List.length_drop] at hlt
  omega

theorem advances_read
    (routine : Routine) :
    Advances s fun depth => read s depth routine := by
  refine advances_of_ends (fun depth =>
    (within_read_succ s depth).1 routine) fun before ts h => ?_
  cases routine with
  | level n =>
      have hcalls : 10 * ts.length + (Routine.level n).height ≤ 10 * (ts.length + 1) := by
        simp only [Routine.height]
        omega
      exact ((reads_all h).1 n _ hcalls).mono (fun _ _ _ hpost =>
        hpost.1) fun _ _ => trivial
  | unary =>
      exact ((reads_all h).2 _ (by omega)).mono (fun _ _ _ hpost =>
        hpost.1) fun _ _ => trivial
  | primary =>
      have ih : ReadsBelow s 0 (.level 0) ts.length :=
        fun depth before' ts' h' _ => (reads_all h').1 0 depth
      exact (ends_primary h ih (by omega)).mono (fun _ _ _ hpost =>
        hpost.1) fun _ _ => trivial

theorem advances_statement
    (s : TokenStream) :
    Advances s (statement s) := by
  refine advances_of_ends (within_statement_succ s) fun before ts h => ?_
  exact (ends_statement h (Nat.le_refl _)).mono (fun _ _ _ hpost =>
    hpost.1) fun _ _ => trivial

/--
Every routine comes back from every place on the list of tokens, without looking beyond it
and in calls of linear depth. The reading of a program takes all tokens, each once.
-/
theorem descent_stays_on_tokens
    (s : TokenStream) :
    (∀ routine, Advances s fun depth => read s depth routine) ∧ Advances s (statement s) ∧
      ∃ k,
        (∀ depth, 10 * (s.tokens.length + 1) < depth →
          (program s depth).outcome (cursorAt s 0) =
            some (Checked.answer s.toProgram, cursorAt s k)) ∧
        k ≤ s.tokens.length ∧ ∀ node, s.toProgram = .ok node →
          cursorAt s k = ⟨s.tokens.length, s.tokens⟩ := by
  refine ⟨advances_read, advances_statement s, ?_⟩
  obtain ⟨result, k, houtcome, _, hk, hpost, hrefused⟩ :=
    (ends_program s (Nat.lt_succ_self _)).exists_cursorAt rfl
  have hresult : s.toProgram = result := by
    cases result with
    | ok node => exact (hpost node rfl).2
    | error fault => exact hrefused fault rfl
  refine ⟨k, fun depth hdepth => ?_, hk, fun node hnode => ?_⟩
  · rw [hresult]
    exact Within.outcome_of_le (within_program_succ s) hdepth houtcome
  · have hend : s.tokens.length ≤ k :=
      List.drop_eq_nil_iff.mp (hpost node (hresult ▸ hnode)).1
    obtain rfl : k = s.tokens.length := Nat.le_antisymm hk hend
    rw [cursorAt, List.take_length]

end Descent
end LetLang
