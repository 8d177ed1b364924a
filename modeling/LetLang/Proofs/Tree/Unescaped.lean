import LetLang.Proofs.Number.Distinction
import LetLang.Proofs.Text.Escape
import LetLang.Proofs.Token.Origin
import LetLang.Proofs.Tree.Display
import LetLang.Proofs.Tree.Machine
import LetLang.Proofs.Tree.Origin

/-!
# Escape characters come from the source only

Quoted texts and numerals have no escape characters. The words of a tree and the snippets
of a refusal are made of characters of the source, so a source without escape characters
gives a tree without them, or a fault whose message has none.
-/

namespace LetLang

namespace Text

theorem isAlphanum_of_mem_toDigits
    {n : Nat} {c : Char}
    (h : c ∈ Nat.toDigits 16 n) :
    c.isAlphanum = true := by
  have hdigit : ∀ d : Fin 16, (Nat.digitChar d).isAlphanum = true := by decide
  induction n using Nat.strong_induction_on with
  | h n ih =>
      by_cases hn : n < 16
      · rw [Nat.toDigits_of_lt_base hn] at h
        rw [List.mem_singleton.mp h]
        exact hdigit ⟨n, hn⟩
      · rw [Nat.toDigits_of_base_le (by decide) (by omega)] at h
        rcases List.mem_append.mp h with h | h
        · exact ih (n / 16) (by omega) h
        · rw [List.mem_singleton.mp h]
          exact hdigit ⟨n % 16, Nat.mod_lt n (by decide)⟩

theorem not_mem_hexadecimal
    (width n : Nat) :
    '\x1b' ∉ hexadecimal width n := by
  intro hmem
  rcases List.mem_append.mp hmem with hmem | hmem
  · cases List.eq_of_mem_replicate hmem
  · cases isAlphanum_of_mem_toDigits hmem

theorem IsQuote.ne_escape
    {quote : Char}
    (h : IsQuote quote) :
    '\x1b' ≠ quote := by
  rcases h with rfl | rfl <;> decide

theorem EscapedAs.not_mem
    {quote c : Char} {u : List Char}
    (hquote : IsQuote quote)
    (h : EscapedAs quote c u) :
    '\x1b' ∉ u := by
  cases h with
  | plain _ _ hprintable =>
      intro hmem
      rw [← List.mem_singleton.mp hmem, isPrintable_of_lt (by decide)] at hprintable
      cases hprintable
  | marked hmark =>
      simp only [marks, List.mem_cons, Prod.mk.injEq, List.not_mem_nil, or_false] at hmark
      rcases hmark with ⟨_, rfl⟩ | ⟨_, rfl⟩ | ⟨_, rfl⟩ | ⟨_, rfl⟩ | ⟨_, rfl⟩ <;>
        simp [hquote.ne_escape]
  | numbered hletter _ =>
      simp only [numberings, List.mem_cons, Prod.mk.injEq, List.not_mem_nil,
        or_false] at hletter
      rcases hletter with ⟨rfl, rfl⟩ | ⟨rfl, rfl⟩ | ⟨rfl, rfl⟩ <;>
        simp [not_mem_hexadecimal]

/-- A quoted text has no escape character, whatever text it is. -/
theorem unescaped_quoted
    (s : String) :
    Unescaped (quoted s) := by
  have hquote := isQuote_quoteFor s.toList
  rw [Unescaped, toList_quoted]
  simp only [List.mem_cons, List.mem_append, List.mem_flatMap, List.not_mem_nil, or_false,
    hquote.ne_escape, false_or]
  rintro ⟨c, _, hmem⟩
  exact (escapedAs_escaped _ c).not_mem hquote hmem

end Text

open Text

namespace Decimal

theorem IsNumeralText.unescaped
    {text : String}
    (h : IsNumeralText text.toList) :
    Unescaped text := by
  intro hmem
  rcases h _ hmem with halnum | hsign
  · cases halnum
  · simp at hsign

theorem isNumeralText_display
    (x : Float) :
    IsNumeralText (display x).toList := by
  unfold display
  split
  · exact isNumeralText_of_all (show "NaN".toList.all Char.isAlphanum = true from rfl)
  · rw [String.toList_ofList]
    exact isNumeralText_append (isNumeralText_sign _) (isNumeralText_of_all rfl)
  · split
    · rw [String.toList_ofList]
      exact isNumeralText_append (isNumeralText_sign _) (isNumeralText_toDigits _)
    · exact isNumeralText_numeral x

end Decimal

namespace Node

/-- The words that a node brings along: its name, its text, its operator or the name of its
kind if that is unknown. -/
def words : Node → List String
  | declaration _ name _ _ _ => [name]
  | identifier _ name => [name]
  | string _ text => [text]
  | operation _ _ operator _ _ _ => [operator]
  | unary _ operator _ => [operator]
  | unknown _ kindName => [kindName]
  | program _ _ | conditional _ _ _ _ | number _ _ | assignment _ _ _ => []

/-- No word of the tree has an escape character. -/
def Unescaped (n : Node) : Prop :=
  ∀ m ∈ n.subtrees, ∀ word ∈ m.words, Text.Unescaped word

theorem unescaped_field
    {name value : String}
    (hname : Text.Unescaped name)
    (hvalue : Text.Unescaped value) :
    Text.Unescaped (field name value) := by
  rw [field, unescaped_append_iff, unescaped_append_iff]
  exact ⟨⟨hname, by decide⟩, hvalue⟩

theorem unescaped_attributes
    (n : Node) :
    ∀ item ∈ n.attributes, Text.Unescaped item := by
  have hquoted : ∀ name text, Text.Unescaped name →
      Text.Unescaped (field name (Text.quoted text)) :=
    fun name text hname => unescaped_field hname (unescaped_quoted text)
  have hflag : ∀ constant, Text.Unescaped (field "constant" (Value.flag constant)) := by
    decide
  cases n with
  | declaration _ name _ constant value =>
      cases value with
      | none =>
          simpa [attributes] using ⟨hquoted _ name (by decide), hflag constant, by decide⟩
      | some value => simpa [attributes] using ⟨hquoted _ name (by decide), hflag constant⟩
  | conditional _ branch _ _ =>
      cases branch <;> exact List.forall_mem_singleton.mpr (by decide)
  | identifier _ name => exact List.forall_mem_singleton.mpr (hquoted _ name (by decide))
  | number _ x =>
      exact List.forall_mem_singleton.mpr
        (unescaped_field (by decide) (Decimal.isNumeralText_numeral x).unescaped)
  | string _ text => exact List.forall_mem_singleton.mpr (hquoted _ text (by decide))
  | operation _ _ operator _ _ _ =>
      exact List.forall_mem_singleton.mpr (hquoted _ operator (by decide))
  | unary _ operator _ =>
      exact List.forall_mem_singleton.mpr (hquoted _ operator (by decide))
  | _ => exact List.forall_mem_nil _

theorem unescaped_kindName
    {n : Node}
    (h : n.Unescaped) :
    Text.Unescaped n.kindName := by
  cases n with
  | operation family _ _ _ _ _ =>
      rw [kindName]
      cases family <;> decide
  | unknown _ kindName => exact h _ (mem_subtrees_self _) kindName List.mem_cons_self
  | _ =>
      rw [kindName]
      decide

theorem unescaped_block
    (depth : Nat) {kindName : String} {attributes children : List String}
    (hkind : Text.Unescaped kindName)
    (hattributes : ∀ item ∈ attributes, Text.Unescaped item)
    (hchildren : ∀ child ∈ children, Text.Unescaped child) :
    Text.Unescaped (block depth kindName attributes children) := by
  have hindent : Text.Unescaped (indent depth) := by
    rw [indent, unescaped_ofList_iff]
    intro hmem
    cases List.eq_of_mem_replicate hmem
  have hlines : ∀ line ∈ children.map ("\n" ++ ·), Text.Unescaped line := by
    refine List.forall_mem_map.mpr fun child hchild => ?_
    exact unescaped_append_iff.mpr ⟨by decide, hchildren child hchild⟩
  have hcomma : Text.Unescaped (", ".intercalate attributes) :=
    unescaped_intercalate (by decide) hattributes
  have hlist : Text.Unescaped (",".intercalate (children.map ("\n" ++ ·))) :=
    unescaped_intercalate (by decide) hlines
  unfold block
  simp only [unescaped_append_iff, hindent, hkind, hcomma, true_and]
  refine ⟨⟨⟨by decide, ?_⟩, ?_⟩, by decide⟩
  · split <;> decide
  · split
    · decide
    · simp only [unescaped_append_iff, hlist, hindent, and_true]
      decide

theorem displayAll_eq_map
    (depth : Nat) (ns : List Node) :
    displayAll depth ns = ns.map (display depth) := by
  induction ns with
  | nil => rw [displayAll, List.map_nil]
  | cons n ns ih => rw [displayAll, ih, List.map_cons]

/-- A tree without escape characters is displayed without them. -/
theorem unescaped_display
    (depth : Nat) (n : Node)
    (h : n.Unescaped) :
    Text.Unescaped (n.display depth) := by
  rw [display_eq_block, displayAll_eq_map]
  refine unescaped_block depth (unescaped_kindName h) n.unescaped_attributes
    (List.forall_mem_map.mpr fun m hm => ?_)
  exact unescaped_display (depth + 1) m fun k hk =>
    h k (mem_subtrees_of_mem_children hm hk)
termination_by sizeOf n
decreasing_by exact sizeOf_lt_of_mem_children hm

/-- The words of a node are texts of tokens. -/
theorem Placed.unescaped
    {ts : List Token} {n : Node}
    (hts : ∀ t ∈ ts, Text.Unescaped t.lexeme.text)
    (h : n.Placed ts) :
    ∀ word ∈ n.words, Text.Unescaped word := by
  cases n with
  | declaration pos name namePos constant value =>
      have hmem : ⟨.identifier name, namePos⟩ ∈ ts := h.subset (by simp)
      exact List.forall_mem_singleton.mpr (hts _ hmem)
  | identifier pos name => exact List.forall_mem_singleton.mpr (hts _ h)
  | string pos text => exact List.forall_mem_singleton.mpr (hts _ h)
  | operation family pos symbol symbolPos left right =>
      obtain ⟨_, op, us, vs, _, rfl, hpart, _⟩ := h
      have hmem : ⟨.operator (.binary op), symbolPos⟩ ∈ ts := hpart.subset (by simp)
      exact List.forall_mem_singleton.mpr (hts _ hmem)
  | unary pos symbol operand =>
      obtain ⟨sign, rfl, hmem⟩ := h
      exact List.forall_mem_singleton.mpr (hts _ hmem)
  | unknown _ _ => exact h.elim
  | _ => exact List.forall_mem_nil _

end Node

/-- The escape characters in the text of a token stand in its source. -/
theorem Lexeme.Spelled.unescaped
    {lexeme : Lexeme} {w : List Char}
    (h : lexeme.Spelled w)
    (hw : '\x1b' ∉ w) :
    Unescaped lexeme.text := by
  cases lexeme with
  | number digits =>
      obtain ⟨rfl, _⟩ := h
      exact hw
  | identifier name =>
      obtain ⟨rfl, _⟩ := h
      exact hw
  | string text =>
      obtain ⟨rfl, _⟩ := h
      exact fun hmem => hw (List.mem_cons_of_mem _ (List.mem_append_left _ hmem))
  | conditional branch => cases branch <;> exact of_decide_eq_true rfl
  | _ =>
      cases h
      exact hw

theorem unescaped_of_mem_tokens
    {source : String} {stream : TokenStream} {t : Token}
    (hsource : Unescaped source)
    (h : tokenize source = .ok stream)
    (ht : t ∈ stream.tokens) :
    Unescaped t.lexeme.text := by
  obtain ⟨before, w, rest, hsplit, hspelled, _⟩ := standsIn_of_mem_tokens h ht
  refine hspelled.unescaped fun hmem => hsource ?_
  rw [hsplit]
  simp [hmem]

/-- A source without escape characters gives a tree without them. -/
theorem Node.unescaped_of_parse
    {source : String} {program : Node}
    (hsource : Text.Unescaped source)
    (h : parse source = .ok program) :
    program.Unescaped := by
  obtain ⟨stream, htokens, hprogram⟩ := exists_of_parse_eq_ok h
  obtain ⟨body, rfl, _, hplaced⟩ := Grammar.exists_laid_of_toProgram hprogram
  rw [Node.Unescaped, Node.subtrees]
  refine List.forall_mem_cons.mpr ⟨List.forall_mem_nil _, fun m hm => ?_⟩
  exact (hplaced m hm).unescaped fun t ht => unescaped_of_mem_tokens hsource htokens ht

/-- The text of a piece, whatever its look. -/
def Piece.text : Piece → String
  | .words text | .snippet text => text

namespace Message

/-- No piece of the message has an escape character. -/
def Unescaped (m : Message) : Prop :=
  ∀ piece ∈ m, Text.Unescaped piece.text

/-- The words of a piece have no escape characters. -/
def hasPlainWords : Piece → Bool
  | .words text => decide (Text.Unescaped text)
  | .snippet _ => true

theorem unescaped_of_slots
    {m : Message}
    (hwords : m.all hasPlainWords = true)
    (hslots : ∀ s ∈ m.slots, Text.Unescaped s) :
    m.Unescaped := by
  induction m with
  | nil => exact List.forall_mem_nil _
  | cons piece m ih =>
      rw [List.all_cons, Bool.and_eq_true] at hwords
      cases piece with
      | words text =>
          exact List.forall_mem_cons.mpr ⟨of_decide_eq_true hwords.1, ih hwords.2 hslots⟩
      | snippet s =>
          obtain ⟨hs, hrest⟩ := List.forall_mem_cons.mp hslots
          exact List.forall_mem_cons.mpr ⟨hs, ih hwords.2 hrest⟩

end Message

namespace Fault

/-- The message of the fault has no escape character. -/
def Unescaped (fault : Fault) : Prop :=
  fault.cause.message.Unescaped

theorem IsWorded.hasPlainWords
    {fault : Fault}
    (h : fault.IsWorded) :
    fault.cause.message.all Message.hasPlainWords = true := by
  obtain ⟨cause, pos⟩ := fault
  cases cause with
  | expectedName keyword found =>
      obtain ⟨constant, rfl⟩ := h keyword found rfl
      cases constant with
      | false => rfl
      | true => rfl
  | _ => rfl

/-- The escape characters of a message come from its snippets. -/
theorem IsWorded.unescaped
    {fault : Fault}
    (h : fault.IsWorded)
    (hsnippets : ∀ s ∈ fault.cause.snippets, Text.Unescaped s) :
    fault.Unescaped := by
  obtain ⟨extra, hextra⟩ := fault.cause.exists_snippets_eq
  rw [hextra] at hsnippets
  exact Message.unescaped_of_slots h.hasPlainWords (List.forall_mem_append.mp hsnippets).1

end Fault

theorem Cause.snippets_of_kind
    {cause : Cause}
    (h : cause.kind = .lexical ∨ cause.kind = .grammar) :
    cause.snippets = [cause.snippet] := by
  cases cause with
  | unaryOperand _ _ | mismatch _ _ _ => rcases h with h | h <;> cases h
  | _ => rfl

theorem Fault.isWorded_of_parse_error
    {source : String} {fault : Fault}
    (h : parse source = .error fault) :
    fault.IsWorded := by
  rcases parse_eq_error h with htokens | ⟨stream, _, hprogram⟩
  · obtain ⟨_, _, _, _, _, _, hrefusal⟩ := TokenStream.refusal_of_read_error [] htokens
    refine isWorded_of_ne fun keyword found hcause => ?_
    rw [hcause] at hrefusal
    cases hrefusal
  · rcases stream.toProgram_eq_error hprogram with hrun | ⟨b, _, hfinish⟩
    · obtain ⟨_, _, _, _, _, _, hstep⟩ := Builder.exists_of_run_error hrun
      exact Builder.isWorded_of_step_error hstep
    · exact Builder.isWorded_of_finish_error hfinish

/-- A source without escape characters is refused without them. -/
theorem Fault.unescaped_of_parse_error
    {source : String} {fault : Fault}
    (hsource : Text.Unescaped source)
    (h : parse source = .error fault) :
    fault.Unescaped := by
  refine (isWorded_of_parse_error h).unescaped ?_
  rcases parse_eq_error h with htokens | ⟨stream, htokens, hprogram⟩
  · obtain ⟨more, rest, hsplit, _, hsnippet⟩ := TokenStream.exists_of_read_error [] htokens
    rw [Cause.snippets_of_kind (.inl (TokenStream.kind_of_read_error htokens))]
    refine List.forall_mem_singleton.mpr (hsource.of_subset ?_)
    rw [hsplit]
    exact List.subset_append_of_subset_right more hsnippet.subset
  · rcases refuses_of_toProgram_error hprogram with ⟨t, ht, hrefuses⟩ | hend
    · rw [Cause.snippets_of_kind (.inr hrefuses.kind_eq), hrefuses.snippet_eq]
      exact List.forall_mem_singleton.mpr (unescaped_of_mem_tokens hsource htokens ht)
    · rw [Cause.snippets_of_kind (.inr hend.kind_eq), hend.snippet_eq]
      exact List.forall_mem_singleton.mpr (by decide)

end LetLang
