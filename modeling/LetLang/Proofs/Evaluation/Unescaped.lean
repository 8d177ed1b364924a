import LetLang.Proofs.Evaluation.Likeness
import LetLang.Proofs.Tree.Unescaped

/-!
# Evaluation makes no escape characters

Strings are literals of the source, or joined from other values as they are shown. So in a
chain whose values are shown without escape characters a tree without them evaluates to a
value or a fault without them, and leaves such a chain behind.
-/

namespace LetLang

/-- The value is shown without escape characters. -/
def Value.Unescaped (v : Value) : Prop :=
  Text.Unescaped v.text

/-- The likeness of a run to itself, if its values and faults have no escape characters. -/
def Likeness.unescaped : Likeness :=
  .ofValues (fun v w => v = w ∧ v.Unescaped) (fun f g => f = g ∧ f.Unescaped)
    fun _ => False

open Likeness (unescaped)

namespace Value

theorem unescaped_null :
    null.Unescaped := by
  rw [Unescaped, text]
  decide

theorem unescaped_number
    (x : Float) :
    (number x).Unescaped := by
  exact (Decimal.isNumeralText_display x).unescaped

theorem unescaped_bool
    (b : Bool) :
    (bool b).Unescaped := by
  cases b <;> rw [Unescaped, text] <;> decide

theorem unescaped_typeName
    (v : Value) :
    Text.Unescaped v.typeName := by
  cases v <;> rw [typeName] <;> decide

/-- An operation gives a value or a cause without escape characters. -/
def AnswersUnescaped (answer : Except Cause Value) : Prop :=
  ∀ pos, unescaped.AnswersAlike pos pos answer answer

theorem answersUnescaped_ok
    {v : Value}
    (h : v.Unescaped) :
    AnswersUnescaped (.ok v) := by
  exact fun _ => .ok ⟨rfl, h⟩

/-- A cause other than a missing name quotes nothing but its snippets. -/
theorem answersUnescaped_error
    {cause : Cause}
    (hcause : ∀ keyword found, cause ≠ .expectedName keyword found)
    (h : ∀ s ∈ cause.snippets, Text.Unescaped s) :
    AnswersUnescaped (.error cause) := by
  exact fun _ => .error ⟨rfl, (Fault.isWorded_of_ne hcause).unescaped h⟩

variable {symbol : String} {l r : Value}

theorem answersUnescaped_unary
    (hsymbol : Text.Unescaped symbol)
    (v : Value) :
    AnswersUnescaped (unary symbol v) := by
  unfold unary
  split
  · exact answersUnescaped_ok (unescaped_number _)
  · exact answersUnescaped_ok (unescaped_bool _)
  · refine answersUnescaped_error (by simp) ?_
    simpa [Cause.snippets] using ⟨hsymbol, v.unescaped_typeName⟩

theorem answersUnescaped_mismatch
    (hsymbol : Text.Unescaped symbol)
    (l r : Value) :
    AnswersUnescaped (.error (.mismatch symbol l.typeName r.typeName)) := by
  refine answersUnescaped_error (by simp) ?_
  simpa [Cause.snippets] using ⟨hsymbol, l.unescaped_typeName, r.unescaped_typeName⟩

theorem answersUnescaped_numeric
    (hsymbol : Text.Unescaped symbol)
    (x y : Float) :
    AnswersUnescaped (numeric symbol x y) := by
  unfold numeric
  split
  · exact answersUnescaped_error (by simp) (List.forall_mem_singleton.mpr hsymbol)
  · split
    · exact answersUnescaped_error (by simp)
        (List.forall_mem_singleton.mpr (of_decide_eq_true rfl))
    · exact answersUnescaped_ok (unescaped_number _)

theorem answersUnescaped_arithmetic
    (hsymbol : Text.Unescaped symbol)
    (hl : l.Unescaped)
    (hr : r.Unescaped) :
    AnswersUnescaped (arithmetic symbol l r) := by
  unfold arithmetic
  split
  · split
    · exact answersUnescaped_ok (Text.unescaped_append_iff.mpr ⟨hl, hr⟩)
    · exact answersUnescaped_mismatch hsymbol l r
  · split
    · exact answersUnescaped_numeric hsymbol _ _
    · exact answersUnescaped_ok unescaped_null

theorem answersUnescaped_logical
    (hsymbol : Text.Unescaped symbol)
    (l r : Value) :
    AnswersUnescaped (logical symbol l r) := by
  unfold logical
  split
  · split
    · exact answersUnescaped_ok (unescaped_bool _)
    · split
      · exact answersUnescaped_ok (unescaped_bool _)
      · exact answersUnescaped_mismatch hsymbol l r
  · split
    · split
      · exact answersUnescaped_error (by simp) (List.forall_mem_singleton.mpr hsymbol)
      · exact answersUnescaped_ok (unescaped_bool _)
    · exact answersUnescaped_ok (unescaped_bool _)

end Value

/-- Every value that is found in the chain is shown without escape characters. -/
def Chain.Unescaped (c : Chain) : Prop :=
  c.Related unescaped.value c

theorem Scope.corresponds_self
    {R : Binding → Binding → Prop} {s : Scope}
    (h : ∀ entry ∈ s, R entry.2 entry.2) :
    s.Corresponds R s := by
  intro name
  induction s with
  | nil => exact .none
  | cons entry s ih =>
      obtain ⟨hentry, hrest⟩ := List.forall_mem_cons.mp h
      simp only [find?, Ledger.get?]
      split
      · exact .some hentry
      · exact ih hrest

theorem Chain.unescaped_initial
    {version : String}
    (h : Text.Unescaped version) :
    (Chain.initial version).Unescaped := by
  have hbuiltins : ∀ entry ∈ Scope.builtins version, entry.2.value.Unescaped := by
    simp only [Scope.builtins, List.forall_mem_cons]
    exact ⟨Value.unescaped_number _, Value.unescaped_number _, h, Value.unescaped_bool _,
      Value.unescaped_bool _, Value.unescaped_null, List.forall_mem_nil _⟩
  exact .cons (Scope.corresponds_self fun entry hentry =>
    ⟨⟨rfl, hbuiltins entry hentry⟩, rfl⟩) .nil

/-- A cause that quotes nothing but a name. -/
theorem Fault.unescaped_named
    {name : String} {cause : Cause}
    (pos : Pos)
    (hcause : ∀ keyword found, cause ≠ .expectedName keyword found)
    (hsnippets : cause.snippets = [name])
    (hname : Text.Unescaped name) :
    unescaped.fault ⟨cause, pos⟩ ⟨cause, pos⟩ := by
  refine ⟨rfl, (isWorded_of_ne hcause).unescaped ?_⟩
  rw [hsnippets]
  exact List.forall_mem_singleton.mpr hname

namespace Node

/-- A part of a tree has no other words. -/
theorem Unescaped.of_subset
    {m n : Node}
    (h : n.Unescaped)
    (hsub : m.subtrees ⊆ n.subtrees) :
    m.Unescaped := by
  exact fun k hk => h k (hsub hk)

theorem Unescaped.word
    {n : Node} {word : String}
    (h : n.Unescaped)
    (hword : word ∈ n.words) :
    Text.Unescaped word := by
  exact h n n.mem_subtrees_self word hword

/-- What a node does itself makes no escape characters, and its parts have no
other words. -/
theorem Unescaped.rootsAlike
    (n : Node)
    (h : n.Unescaped) :
    unescaped.RootsAlike (fun k m => k = m ∧ k.Unescaped) n n := by
  have hpart : ∀ k : Node, k.subtrees ⊆ n.subtrees → k = k ∧ k.Unescaped := fun k hsub =>
    ⟨rfl, h.of_subset hsub⟩
  have hnull : unescaped.value .null .null := ⟨rfl, Value.unescaped_null⟩
  cases n with
  | program pos body =>
      refine .program hnull (List.forall₂_same.mpr fun m hm => hpart m fun k hk => ?_)
      simp [subtrees, mem_subtreesAll hm hk]
  | declaration pos name namePos constant value =>
      have hname : Text.Unescaped name := h.word List.mem_cons_self
      have hdeclare : ∀ v w, unescaped.value v w → unescaped.RunsAlike
          (Evaluation.declare namePos name constant v)
          (Evaluation.declare namePos name constant w) := fun v w hvw =>
        Likeness.runsAlike_declare
          (Fault.unescaped_named namePos (by simp) rfl hname) constant hvw
      cases value with
      | none => exact .declaration (hdeclare .null .null hnull)
      | some value =>
          refine .initialized (hpart value fun k hk => ?_) hdeclare
          simp [subtrees, hk]
  | conditional pos branch condition block =>
      refine .conditional hnull ?_ (hpart condition fun k hk => ?_)
        (List.forall₂_same.mpr fun m hm => hpart m fun k hk => ?_)
      · rintro v _ ⟨rfl, _⟩
        rfl
      · simp [subtrees, hk]
      · simp [subtrees, mem_subtreesAll hm hk]
  | identifier pos name =>
      have hname : Text.Unescaped name := h.word List.mem_cons_self
      exact .identifier
        (Likeness.runsAlike_lookup (Fault.unescaped_named pos (by simp) rfl hname))
  | number pos x => exact .number ⟨rfl, Value.unescaped_number x⟩
  | string pos text => exact .string ⟨rfl, h.word List.mem_cons_self⟩
  | operation family pos symbol symbolPos left right =>
      have hsymbol : Text.Unescaped symbol := h.word List.mem_cons_self
      have hleft := hpart left fun k hk => by simp [subtrees, hk]
      have hright := hpart right fun k hk => by simp [subtrees, hk]
      cases family with
      | arithmetic =>
          refine .arithmetic hleft hright ?_
          rintro l _ r _ ⟨rfl, hl⟩ ⟨rfl, hr⟩
          exact Value.answersUnescaped_arithmetic hsymbol hl hr symbolPos
      | logical =>
          refine .logical hleft hright ?_
          rintro l _ r _ ⟨rfl, _⟩ ⟨rfl, _⟩
          exact Value.answersUnescaped_logical hsymbol l r symbolPos
      | untyped =>
          exact .untyped (Fault.unescaped_named _ (by simp) rfl (of_decide_eq_true rfl))
  | unary pos symbol operand =>
      refine .unary (hpart operand fun k hk => by simp [subtrees, hk]) ?_
      rintro v _ ⟨rfl, _⟩
      exact Value.answersUnescaped_unary (h.word List.mem_cons_self) v pos
  | assignment pos target value =>
      have htarget : target.Unescaped := h.of_subset fun k hk => by simp [subtrees, hk]
      rcases target.identifier_or_not with ⟨namePos, name, rfl⟩ | hother
      · have hname : Text.Unescaped name := htarget.word List.mem_cons_self
        refine .assignment (Fault.unescaped_named namePos (by simp) rfl hname)
          (hpart value fun k hk => by simp [subtrees, hk]) fun v w hvw => ?_
        exact Likeness.runsAlike_assign (Fault.unescaped_named namePos (by simp) rfl hname)
          (Fault.unescaped_named namePos (by simp) rfl hname) hvw
      · exact .notAssignable hother hother
          (Fault.unescaped_named target.pos (by simp) rfl (unescaped_kindName htarget))
  | unknown pos kindName =>
      exact .unknown (Fault.unescaped_named _ (by simp) rfl (h.word List.mem_cons_self))

/-- A tree without escape characters evaluates without them, and leaves a chain
without them. -/
theorem unescaped_evaluate
    {n : Node} {c : Chain}
    (h : n.Unescaped)
    (hc : c.Unescaped) :
    (∀ v c', n.evaluate c = .ok v c' → v.Unescaped ∧ c'.Unescaped) ∧
      ∀ fault c', n.evaluate c = .error fault c' → fault.Unescaped ∧ c'.Unescaped := by
  have hends := Likeness.runsAlike_evaluate_self Unescaped.rootsAlike h c c hc
  constructor
  · intro v c' hrun
    rw [hrun] at hends
    cases hends with
    | ok hvalue hnext => exact ⟨hvalue.2, hnext⟩
  · intro fault c' hrun
    rw [hrun] at hends
    cases hends with
    | error hfault hnext => exact ⟨hfault.2, hnext⟩
    | excusedLeft h => exact h.elim
    | excusedRight h => exact h.elim

end Node
end LetLang
