import LetLang.Dialogue.Basic
import LetLang.Proofs.Token.Coverage
import LetLang.Proofs.Tree.Balance
import LetLang.Proofs.Tree.Origin

/-!
# Continued lines and the parser

Whether a line is held back is decided by counting quotes and parentheses. The count agrees
with the parser: a text splits into tokens only if its quotes come in pairs, and then the
parentheses outside of the pairs are its tokens for parentheses, of which a program has as
many closing as opening ones. So a line that is held back is no program, and a line that is
not held back never fails only because a closing quote or a closing parenthesis is missing.
-/

namespace LetLang

/-- What is trimmed from the end of a line is blank. -/
theorem Text.exists_trimEnd_append
    (line : String) :
    ∃ blanks, line.toList = (trimEnd line).toList ++ blanks ∧
      ∀ c ∈ blanks, isBlank c = true := by
  refine ⟨(line.toList.reverse.takeWhile isBlank).reverse, ?_, ?_⟩
  · rw [trimEnd, String.toList_ofList, dropTrailing, ← List.reverse_append,
      List.takeWhile_append_dropWhile, List.reverse_reverse]
  · intro c hc
    exact List.all_eq_true.mp List.all_takeWhile c (List.mem_reverse.mp hc)

namespace Continuation

open Token

/-- Whether a text goes on inside a string literal depends on the parity of the
quotes before. -/
theorem outside_append
    (inside : Bool) (cs ds : List Char) :
    outside inside (cs ++ ds) = outside inside cs ++ outside
      (inside ^^ decide (cs.count '"' % 2 = 1)) ds := by
  induction cs generalizing inside with
  | nil => simp [outside]
  | cons c cs ih =>
      by_cases hc : c = '"'
      · have hflip : (!inside ^^ decide (cs.count '"' % 2 = 1)) =
            (inside ^^ decide ((cs.count '"' + 1) % 2 = 1)) := by
          rcases Nat.mod_two_eq_zero_or_one (cs.count '"') with hmod | hmod
          · simp [Nat.add_mod, hmod]
          · simp [Nat.add_mod, hmod]
        simp [outside, hc, ih, hflip]
      · have hcount : (c :: cs).count '"' = cs.count '"' := List.count_cons_of_ne hc
        rw [hcount]
        cases inside with
        | true => simp [outside, hc, ih]
        | false => simp [outside, hc, ih]

theorem outside_of_not_mem
    {cs : List Char}
    (h : '"' ∉ cs) :
    outside false cs = cs := by
  induction cs with
  | nil => rfl
  | cons c cs ih =>
      rw [List.mem_cons, not_or] at h
      have hc : ¬ c = '"' := fun heq => h.1 heq.symm
      simp [outside, hc, ih h.2]

theorem outside_inside_of_not_mem
    {cs : List Char}
    (h : '"' ∉ cs) :
    outside true cs = [] := by
  induction cs with
  | nil => rfl
  | cons c cs ih =>
      rw [List.mem_cons, not_or] at h
      have hc : ¬ c = '"' := fun heq => h.1 heq.symm
      simp [outside, hc, ih h.2]

/-- The quotes of a text come in pairs, and the parentheses outside of the pairs are those
of the tokens. -/
structure Pairs (cs : List Char) (ts : List Token) : Prop where
  quotes_even : cs.count '"' % 2 = 0
  opening : (outside false cs).count '(' = occurrences .openParen ts
  closing : (outside false cs).count ')' = occurrences .closeParen ts

theorem pairs_nil :
    Pairs [] [] := by
  exact ⟨rfl, rfl, rfl⟩

theorem Pairs.append
    {cs ds : List Char} {ts us : List Token}
    (hcs : Pairs cs ts)
    (hds : Pairs ds us) :
    Pairs (cs ++ ds) (ts ++ us) := by
  have houtside : outside false (cs ++ ds) = outside false cs ++ outside false ds := by
    rw [outside_append, hcs.quotes_even]
    rfl
  refine ⟨?_, ?_, ?_⟩
  · rw [List.count_append, Nat.add_mod, hcs.quotes_even, hds.quotes_even]
  · rw [houtside, List.count_append, hcs.opening, hds.opening, occurrences,
      occurrences, occurrences, List.countP_append]
  · rw [houtside, List.count_append, hcs.closing, hds.closing, occurrences,
      occurrences, occurrences, List.countP_append]

/-- The character is neither a quote nor a parenthesis. -/
def isPlain (c : Char) : Bool :=
  c != '"' && c != '(' && c != ')'

theorem isPlain_of_class
    {p : Char → Bool}
    (hquote : p '"' = false)
    (hopen : p '(' = false)
    (hclose : p ')' = false)
    {c : Char}
    (hc : p c = true) :
    isPlain c = true := by
  simp [isPlain, Lexeme.ne_of_class hc hquote, Lexeme.ne_of_class hc hopen,
    Lexeme.ne_of_class hc hclose]

/-- Plain characters count for nothing. -/
theorem pairs_of_isPlain
    {cs : List Char} {ts : List Token}
    (hcs : ∀ c ∈ cs, isPlain c = true)
    (hts : ∀ t ∈ ts, t.lexeme ≠ .openParen ∧ t.lexeme ≠ .closeParen) :
    Pairs cs ts := by
  have habsent : ∀ c, isPlain c = false → c ∉ cs := by
    intro c hc hmem
    rw [hcs c hmem] at hc
    cases hc
  have hquote : '"' ∉ cs := habsent _ rfl
  refine ⟨?_, ?_, ?_⟩
  · rw [List.count_eq_zero.mpr hquote]
  · rw [outside_of_not_mem hquote, List.count_eq_zero.mpr (habsent _ rfl)]
    refine (List.countP_eq_zero.mpr ?_).symm
    intro t ht
    simpa using (hts t ht).1
  · rw [outside_of_not_mem hquote, List.count_eq_zero.mpr (habsent _ rfl)]
    refine (List.countP_eq_zero.mpr ?_).symm
    intro t ht
    simpa using (hts t ht).2

theorem isPlain_of_mem_symbol
    (op : Operator) :
    ∀ c ∈ op.symbol.toList, isPlain c = true := by
  rcases op with (op | op) | _ | _
  · cases op <;> exact List.all_eq_true.mp rfl
  · cases op <;> exact List.all_eq_true.mp rfl
  · exact List.all_eq_true.mp rfl
  · exact List.all_eq_true.mp rfl

theorem isPlain_of_mem_branch
    {branch : Branch} {w : List Char}
    (h : (Lexeme.conditional branch).Spelled w) :
    ∀ c ∈ w, isPlain c = true := by
  cases branch with
  | whenTrue =>
      obtain rfl : w = Branch.whenTrue.keyword.toList := h
      exact List.all_eq_true.mp rfl
  | otherwise =>
      obtain rfl : w = Branch.otherwise.keyword.toList := h
      exact List.all_eq_true.mp rfl
  | orWhenTrue =>
      obtain ⟨gap, _, hgap, rfl⟩ := h
      intro c hc
      rcases List.mem_append.mp hc with hc | hc
      · rcases List.mem_append.mp hc with hc | hc
        · exact List.all_eq_true.mp rfl c hc
        · exact isPlain_of_class rfl rfl rfl (hgap c hc)
      · exact List.all_eq_true.mp rfl c hc

/-- The characters of a token are plain unless it is a string or a parenthesis. -/
theorem pairs_of_spelled
    {t : Token} {w : List Char}
    (h : t.lexeme.Spelled w) :
    Pairs w [t] := by
  obtain ⟨lexeme, pos⟩ := t
  cases lexeme with
  | number digits =>
      refine pairs_of_isPlain ?_ (by simp)
      intro c hc
      exact isPlain_of_class rfl rfl rfl (h.2.1 c hc)
  | identifier name =>
      refine pairs_of_isPlain ?_ (by simp)
      intro c hc
      exact isPlain_of_class rfl rfl rfl (h.2.1.2 c hc)
  | string text =>
      obtain ⟨rfl, hquote⟩ := h
      have houtside : outside false ('"' :: (text.toList ++ ['"'])) = [] := by
        simp [outside, outside_append, outside_inside_of_not_mem hquote]
      refine ⟨?_, ?_, ?_⟩
      · simp [List.count_append, List.count_eq_zero.mpr hquote]
      · rw [houtside]
        rfl
      · rw [houtside]
        rfl
  | operator op =>
      obtain rfl : w = op.symbol.toList := h
      exact pairs_of_isPlain (isPlain_of_mem_symbol op) (by simp)
  | semicolon =>
      obtain rfl : w = Lexeme.semicolon.text.toList := h
      exact pairs_of_isPlain (List.all_eq_true.mp rfl) (by simp)
  | openParen =>
      obtain rfl : w = Lexeme.openParen.text.toList := h
      exact ⟨rfl, rfl, rfl⟩
  | closeParen =>
      obtain rfl : w = Lexeme.closeParen.text.toList := h
      exact ⟨rfl, rfl, rfl⟩
  | declare constant =>
      obtain rfl : w = (Lexeme.declare constant).text.toList := h
      refine pairs_of_isPlain ?_ (by simp)
      cases constant <;> exact List.all_eq_true.mp rfl
  | conditional branch => exact pairs_of_isPlain (isPlain_of_mem_branch h) (by simp)

/-- The quotes and parentheses of a text that splits into tokens are those of
the tokens. -/
theorem pairs_of_read
    {pos : Pos} {cs : List Char} {stream : TokenStream}
    (h : TokenStream.read pos cs = .ok stream) :
    Pairs cs stream.tokens := by
  fun_induction TokenStream.read pos cs generalizing stream with
  | case1 pos =>
      cases h
      exact pairs_nil
  | case2 pos c cs hskip ih =>
      have hc : Pairs [c] [] :=
        pairs_of_isPlain
          (List.forall_mem_singleton.mpr (isPlain_of_class rfl rfl rfl hskip)) (by simp)
      exact hc.append (ih h)
  | case3 pos c cs hskip cause hscan => cases h
  | case4 pos c cs hskip lexeme n hscan fault hread ih => cases h
  | case5 pos c cs hskip lexeme n hscan rest hread ih =>
      cases h
      obtain ⟨w, after, rfl, rfl, hspelled, _⟩ := Lexeme.spelled_of_scan hscan
      rw [List.take_left, List.drop_left] at hread ih
      have hw : Pairs (c :: w) [⟨lexeme, pos⟩] := pairs_of_spelled hspelled
      exact hw.append (ih hread)

/-- A string literal is not terminated if there is no quote after its opening one. -/
theorem quote_of_scan_unterminated
    {c : Char} {cs : List Char} {rest : String}
    (h : Lexeme.scan c cs = .error (.unterminatedString rest)) :
    c = '"' ∧ '"' ∉ cs := by
  cases Lexeme.refusal_of_scan_error h with
  | string hc hcs => exact ⟨hc, hcs⟩

/-- A string literal is not terminated only if the quotes do not come in pairs. -/
theorem quotes_odd_of_read_unterminated
    {pos : Pos} {cs : List Char} {fault : Fault} {rest : String}
    (h : TokenStream.read pos cs = .error fault)
    (hcause : fault.cause = .unterminatedString rest) :
    cs.count '"' % 2 = 1 := by
  fun_induction TokenStream.read pos cs with
  | case1 pos => cases h
  | case2 pos c cs hskip ih =>
      have hquote : c ≠ '"' := Lexeme.ne_of_class hskip rfl
      rw [List.count_cons_of_ne hquote, ih h]
  | case3 pos c cs hskip cause hscan =>
      cases h
      obtain rfl : cause = .unterminatedString rest := hcause
      obtain ⟨rfl, hquote⟩ := quote_of_scan_unterminated hscan
      rw [List.count_cons_self, List.count_eq_zero.mpr hquote]
  | case4 pos c cs hskip lexeme n hscan fault' hread ih =>
      cases h
      obtain ⟨w, after, rfl, rfl, hspelled, _⟩ := Lexeme.spelled_of_scan hscan
      rw [List.take_left, List.drop_left] at hread ih
      have hw : Pairs (c :: w) [⟨lexeme, pos⟩] := pairs_of_spelled hspelled
      rw [← List.cons_append, List.count_append, Nat.add_mod, hw.quotes_even, ih hread]
  | case5 pos c cs hskip lexeme n hscan stream hread ih => cases h

/-- A text is refused for such a string literal only if its quotes do not come in pairs. -/
theorem quotes_odd_of_parse_unterminated
    {text : String} {fault : Fault} {rest : String}
    (h : parse text = .error fault)
    (hcause : fault.cause = .unterminatedString rest) :
    text.toList.count '"' % 2 = 1 := by
  rcases parse_eq_error h with htokenize | ⟨stream, _, hprogram⟩
  · exact quotes_odd_of_read_unterminated htokenize hcause
  · -- what refuses a token or the end is no lexical fault
    have hkind : fault.cause.kind = .grammar := by
      rcases refuses_of_toProgram_error hprogram with ⟨t, _, hrefuses⟩ | hrefuses
      · exact hrefuses.kind_eq
      · exact hrefuses.kind_eq
    rw [hcause] at hkind
    cases hkind

theorem isOpen_eq_false_iff
    {cs : List Char} :
    isOpen cs = false ↔ cs.count '"' % 2 = 0 ∧
      (outside false cs).count '(' ≤ (outside false cs).count ')' := by
  simp only [isOpen, Bool.or_eq_false_iff, decide_eq_false_iff_not]
  omega

/-- A program is complete. -/
theorem isOpen_of_parse
    {text : String} {program : Node}
    (h : parse text = .ok program) :
    isOpen text.toList = false := by
  obtain ⟨stream, htokenize, hprogram⟩ := exists_of_parse_eq_ok h
  have hpairs := pairs_of_read htokenize
  have hbalanced := stream.balanced_of_toProgram hprogram
  refine isOpen_eq_false_iff.mpr ⟨hpairs.quotes_even, ?_⟩
  rw [hpairs.opening, hpairs.closing, hbalanced]

/-- The end of a text is refused for an open parenthesis only if the text has more opening
than closing ones. -/
theorem opens_of_refused_end
    {text : String} {stream : TokenStream} {found : String}
    (htokenize : tokenize text = .ok stream)
    (h : parse text = .error ⟨.expectedClosing found, stream.finish⟩) :
    occurrences .closeParen stream.tokens < occurrences .openParen stream.tokens := by
  rw [parse_of_tokenize htokenize] at h
  rcases stream.toProgram_eq_error h with hrun | ⟨b, hrun, hfinish⟩
  · -- a token that is refused stands before the end
    obtain ⟨t, ht, hrefuses⟩ := Builder.refuses_of_run_error hrun
    exact absurd hrefuses.pos_eq.symm (TokenStream.pos_ne_finish htokenize ht)
  · have hturns := Builder.turns_of_run hrun
    have hopen := Builder.openParens_pos_of_finish_error hfinish
    have hstart : Builder.start.stage.openParens = 0 := rfl
    rw [Turns, hstart] at hturns
    omega

/--
A line that is held back is no program. One that is not may fail, but not for an
unterminated string literal or an open parenthesis.
-/
theorem assess_agrees_with_parse
    (line : String) :
    (∃ blanks, line.toList = (assess line).1.toList ++ blanks ∧
      ∀ c ∈ blanks, Text.isBlank c = true) ∧
    ((assess line).2 = true → ∃ fault, parse (assess line).1 = .error fault) ∧
    ((assess line).2 = false → ∀ fault, parse (assess line).1 = .error fault →
      (∀ rest, fault.cause ≠ .unterminatedString rest) ∧
      ∀ stream, tokenize (assess line).1 = .ok stream →
        ∀ found, fault ≠ ⟨.expectedClosing found, stream.finish⟩) := by
  refine ⟨Text.exists_trimEnd_append line, ?_⟩
  have hassess : assess line = (Text.trimEnd line, isOpen (Text.trimEnd line).toList) :=
    rfl
  rw [hassess]
  generalize Text.trimEnd line = text
  constructor
  · intro hopen
    cases hparse : parse text with
    | error fault => exact ⟨fault, rfl⟩
    | ok program =>
        rw [isOpen_of_parse hparse] at hopen
        cases hopen
  · intro hclosed fault hparse
    obtain ⟨hquotes, hparens⟩ := isOpen_eq_false_iff.mp hclosed
    constructor
    · intro rest hcause
      have hodd : text.toList.count '"' % 2 = 1 :=
        quotes_odd_of_parse_unterminated hparse hcause
      omega
    · rintro stream htokenize found rfl
      have hopen := opens_of_refused_end htokenize hparse
      have hpairs := pairs_of_read htokenize
      rw [hpairs.opening, hpairs.closing] at hparens
      omega

/-- A parenthesis inside a string literal closes nothing, so the first line is held back.
The second is refused at once, for a parenthesis that nothing opens. -/
theorem assess_agrees_with_parse_quoted :
    assess "(\")\" " = ("(\")\"", true) ∧ (∃ fault, parse "(\")\"" = .error fault) ∧
    assess "(a))\n" = ("(a))", false) ∧ parse "(a))" =
      .error ⟨.unexpectedToken ")", ⟨1, 4⟩⟩ ∧
    ∀ rest, Cause.unexpectedToken ")" ≠ .unterminatedString rest := by
  have hheld : assess "(\")\" " = ("(\")\"", true) := by
    rfl
  have htaken : assess "(a))\n" = ("(a))", false) := by
    rfl
  have htokens : tokenize "(a))" = .ok ⟨[⟨.openParen, ⟨1, 1⟩⟩, ⟨.identifier "a", ⟨1, 2⟩⟩,
      ⟨.closeParen, ⟨1, 3⟩⟩, ⟨.closeParen, ⟨1, 4⟩⟩], ⟨1, 5⟩⟩ := by
    decide +kernel
  have hparse : parse "(a))" = .error ⟨.unexpectedToken ")", ⟨1, 4⟩⟩ :=
    (parse_of_tokenize htokens).trans rfl
  have hfirst := (assess_agrees_with_parse "(\")\" ").2.1
  have hsecond := (assess_agrees_with_parse "(a))\n").2.2
  rw [hheld] at hfirst
  rw [htaken] at hsecond
  exact ⟨hheld, hfirst rfl, htaken, hparse, (hsecond rfl _ hparse).1⟩

end Continuation
end LetLang
