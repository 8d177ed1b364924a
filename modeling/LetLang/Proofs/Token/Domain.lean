import LetLang.Proofs.Text.Run
import LetLang.Proofs.Token.Spacing

/-!
# Which texts split into tokens

Whether a text splits into tokens can be told without splitting it. Its quotes have to come
in pairs. Outside of the string literals that the pairs enclose, no other characters may
stand than those of the lexical grammar, digits and points have to make numerals, and the
signs of conjunction and disjunction have to be doubled. `WellSpelled` says this of the
text alone. A lexeme at the beginning of the text makes no difference to it, and where no
lexeme can be read it fails; so `tokenize` accepts exactly these texts.
-/

namespace LetLang

open Text

namespace Lexeme

/-- The characters that are punctuation or an operator, each of them alone. -/
def marks : List Char :=
  ['(', ')', ';', '+', '-', '*', '/', '%', '=', '!', '<', '>']

/-- The characters that may stand outside string literals, and the quote. -/
def isCodeChar (c : Char) : Bool :=
  Token.isSkipped c || isWordChar c || isNumeralChar c || marks.contains
    c || c == '"' || c == '&' || c == '|'

/-- What a text must be like to split into tokens. -/
structure WellSpelled (cs : List Char) : Prop where
  /-- Quotes come in pairs. -/
  quotes : EndsOutside cs
  /-- Every character outside string literals belongs to the lexical grammar. -/
  characters : ∀ c, StandsOutside cs c → isCodeChar c = true
  /-- Digits and points that stand together are at least one digit and at most
  one point. -/
  numerals : EveryRun isNumeralChar IsNumeral cs
  /-- Ampersands that stand together make pairs. -/
  conjunctions : EveryRun (· == '&') (·.length % 2 = 0) cs
  /-- Bars that stand together make pairs. -/
  disjunctions : EveryRun (· == '|') (·.length % 2 = 0) cs

theorem wellSpelled_nil :
    WellSpelled [] := by
  have hrun : ∀ p q, EveryRun p q [] := by
    rintro p q run ⟨before, after, heq, _, hne, _⟩
    have hrest := (List.append_eq_nil_iff.mp heq.symm).2
    exact absurd (List.append_eq_nil_iff.mp hrest).1 hne
  refine ⟨rfl, ?_, hrun _ _, hrun _ _, hrun _ _⟩
  rintro c hc
  cases hc.mem

/-- The characters that a lexeme shows outside string literals. -/
inductive Shows : Lexeme → Char → Prop
  | numeral
      {digits : String} {c : Char}
      (h : isNumeralChar c = true) :
      Shows (.number digits) c
  | quote
      {text : String} :
      Shows (.string text) '"'
  | word
      {lexeme : Lexeme} {c : Char}
      (h : isWordChar c = true) :
      Shows lexeme c
  | separator
      {lexeme : Lexeme} {c : Char}
      (h : Token.isSkipped c = true) :
      Shows lexeme c
  | mark
      {lexeme : Lexeme} {c : Char}
      (h : marks.contains c = true) :
      Shows lexeme c
  | ampersand : Shows (.operator (.binary (.logic .and))) '&'
  | bar : Shows (.operator (.binary (.logic .or))) '|'

theorem shows_of_mem_symbol
    {op : Operator} {c : Char}
    (h : c ∈ op.symbol.toList) :
    Shows (.operator op) c := by
  rcases op with (op | op) | _ | _
  · cases op <;> exact .mark (List.all_eq_true.mp rfl c h)
  · cases op
    case and =>
      obtain rfl : c = '&' := List.eq_of_mem_replicate (n := 2) h
      exact .ampersand
    case or =>
      obtain rfl : c = '|' := List.eq_of_mem_replicate (n := 2) h
      exact .bar
    all_goals exact .mark (List.all_eq_true.mp rfl c h)
  · exact .mark (List.all_eq_true.mp rfl c h)
  · exact .mark (List.all_eq_true.mp rfl c h)

/-- All characters of a lexeme other than a string are shown. -/
theorem Spelled.shows_of_mem
    {lexeme : Lexeme} {w : List Char} {c : Char}
    (h : lexeme.Spelled w)
    (hstring : ∀ text, lexeme ≠ .string text)
    (hc : c ∈ w) :
    lexeme.Shows c := by
  cases lexeme with
  | number digits => exact .numeral (h.2.1 c hc)
  | identifier name => exact .word (h.2.1.2 c hc)
  | string text => exact absurd rfl (hstring text)
  | operator op =>
      obtain rfl : w = op.symbol.toList := h
      exact shows_of_mem_symbol hc
  | semicolon =>
      obtain rfl : w = Lexeme.semicolon.text.toList := h
      exact .mark (List.all_eq_true.mp rfl c hc)
  | openParen =>
      obtain rfl : w = Lexeme.openParen.text.toList := h
      exact .mark (List.all_eq_true.mp rfl c hc)
  | closeParen =>
      obtain rfl : w = Lexeme.closeParen.text.toList := h
      exact .mark (List.all_eq_true.mp rfl c hc)
  | declare constant =>
      obtain rfl : w = (Lexeme.declare constant).text.toList := h
      cases constant <;> exact .word (List.all_eq_true.mp rfl c hc)
  | conditional branch =>
      cases branch with
      | whenTrue =>
          obtain rfl : w = Branch.whenTrue.keyword.toList := h
          exact .word (List.all_eq_true.mp rfl c hc)
      | otherwise =>
          obtain rfl : w = Branch.otherwise.keyword.toList := h
          exact .word (List.all_eq_true.mp rfl c hc)
      | orWhenTrue =>
          obtain ⟨gap, _, hgap, rfl⟩ := h
          simp only [List.mem_append] at hc
          rcases hc with (hc | hc) | hc
          · exact .word (List.all_eq_true.mp rfl c hc)
          · exact .separator (hgap c hc)
          · exact .word (List.all_eq_true.mp rfl c hc)

/-- A string literal shows nothing but its opening quote. -/
theorem eq_quote_of_standsOutside
    {text : List Char} {c : Char}
    (htext : '"' ∉ text)
    (h : StandsOutside ('"' :: (text ++ ['"'])) c) :
    c = '"' := by
  obtain ⟨before, after, heq, hbefore⟩ := h
  cases before with
  | nil =>
      cases heq
      rfl
  | cons d before =>
      obtain ⟨rfl, hbody⟩ := List.cons.inj heq
      rcases List.append_eq_append_iff.mp hbody
        with ⟨more, rfl, hrest⟩ | ⟨more, rfl, hrest⟩
      · cases more with
        | nil =>
            cases hrest
            rfl
        | cons e more => simp at hrest
      · -- one quote opens the literal, and none closes it before the character
        rw [List.mem_append, not_or] at htext
        rw [EndsOutside, List.count_cons_self, List.count_eq_zero.mpr htext.1] at hbefore
        cases hbefore

/-- Where a lexeme ends, string literals have ended, and what stands outside of them
is shown. -/
theorem Spelled.shows
    {lexeme : Lexeme} {w : List Char}
    (h : lexeme.Spelled w) :
    EndsOutside w ∧ ∀ c, StandsOutside w c → lexeme.Shows c := by
  by_cases hstring : ∃ text, lexeme = .string text
  · obtain ⟨text, rfl⟩ := hstring
    obtain ⟨rfl, hquote⟩ := h
    refine ⟨?_, ?_⟩
    · simp [EndsOutside, List.count_eq_zero.mpr hquote]
    · intro c hc
      obtain rfl := eq_quote_of_standsOutside hquote hc
      exact .quote
  · have hshows : ∀ c ∈ w, lexeme.Shows c :=
      fun c hc => h.shows_of_mem (fun text heq => hstring ⟨text, heq⟩) hc
    refine ⟨endsOutside_of_not_mem fun hmem => ?_, fun c hc => hshows c hc.mem⟩
    cases hshows _ hmem with
    | quote => exact hstring ⟨_, rfl⟩
    | numeral hc => cases hc
    | word hc => cases hc
    | separator hc => cases hc
    | mark hc => cases hc

namespace Shows

variable {lexeme : Lexeme} {c : Char}

theorem isCodeChar
    (h : lexeme.Shows c) :
    isCodeChar c = true := by
  cases h with
  | numeral hc => simp [Lexeme.isCodeChar, hc]
  | quote => rfl
  | word hc => simp [Lexeme.isCodeChar, hc]
  | separator hc => simp [Lexeme.isCodeChar, hc]
  | mark hc => simp only [Lexeme.isCodeChar, hc, Bool.or_true, Bool.true_or]
  | ampersand => rfl
  | bar => rfl

theorem isNumeralChar_eq_false
    (h : lexeme.Shows c)
    (hnumber : ∀ digits, lexeme ≠ .number digits) :
    isNumeralChar c = false := by
  cases h with
  | numeral hc => exact absurd rfl (hnumber _)
  | quote => rfl
  | word hc => exact isNumeralChar_of_isWordChar hc
  | separator hc => rcases isSkipped_cases hc with rfl | rfl | rfl | rfl <;> rfl
  | mark hc =>
      have hmarks : ∀ d ∈ marks, (!isNumeralChar d) = true := List.all_eq_true.mp rfl
      simpa using hmarks c (List.contains_iff_mem.mp hc)
  | ampersand => rfl
  | bar => rfl

theorem ne_ampersand
    (h : lexeme.Shows c)
    (hand : lexeme ≠ .operator (.binary (.logic .and))) :
    c ≠ '&' := by
  rintro rfl
  cases h with
  | ampersand => exact hand rfl
  | numeral hc => cases hc
  | word hc => cases hc
  | separator hc => cases hc
  | mark hc => cases hc

theorem ne_bar
    (h : lexeme.Shows c)
    (hor : lexeme ≠ .operator (.binary (.logic .or))) :
    c ≠ '|' := by
  rintro rfl
  cases h with
  | bar => exact hor rfl
  | numeral hc => cases hc
  | word hc => cases hc
  | separator hc => cases hc
  | mark hc => cases hc

end Shows

section Pieces

variable {lexeme : Lexeme} {w rest : List Char}

/-- Two more of the same character leave the number of them even or odd. -/
theorem everyRun_pair_append
    {a : Char} (rest : List Char)
    (ha : a ≠ '"') :
    EveryRun (· == a) (·.length % 2 = 0) ([a, a] ++ rest) ↔
      EveryRun (· == a) (·.length % 2 = 0) rest := by
  have hp : ('"' == a) = false := beq_eq_false_iff_ne.mpr (Ne.symm ha)
  obtain ⟨run, tail, rfl, _, _, hrun, htail⟩ := exists_leading (· == a) rest
  have hpair : ∀ c ∈ [a, a] ++ run, (c == a) = true := by
    simpa using hrun
  rw [← List.append_assoc, everyRun_append_of_forall hp hpair htail,
    everyRun_append_of_forall hp hrun htail]
  refine and_congr_left fun _ => ?_
  rw [List.length_append]
  constructor
  · intro h _
    have hlength := h (by simp)
    simp only [List.length_cons, List.length_nil] at hlength
    omega
  · intro h _
    by_cases hne : run = []
    · simp [hne]
    · have hlength := h hne
      simp only [List.length_cons, List.length_nil]
      omega

/-- A part of the text makes no difference if the runs of the three classes are as good
with it as without it. -/
theorem wellSpelled_append_iff
    (hquotes : EndsOutside w)
    (hcode : ∀ c, StandsOutside w c → isCodeChar c = true)
    (hnumerals : EveryRun isNumeralChar IsNumeral (w ++ rest) ↔
      EveryRun isNumeralChar IsNumeral rest)
    (hands : EveryRun (· == '&') (·.length % 2 = 0) (w ++ rest) ↔
      EveryRun (· == '&') (·.length % 2 = 0) rest)
    (hors : EveryRun (· == '|') (·.length % 2 = 0) (w ++ rest) ↔
      EveryRun (· == '|') (·.length % 2 = 0) rest) :
    WellSpelled (w ++ rest) ↔ WellSpelled rest := by
  constructor
  · intro h
    refine ⟨?_, ?_, hnumerals.mp h.numerals, hands.mp h.conjunctions,
      hors.mp h.disjunctions⟩
    · exact (endsOutside_append_iff rest hquotes).mp h.quotes
    · intro c hc
      exact h.characters c ((standsOutside_append_iff rest c hquotes).mpr (Or.inr hc))
  · intro h
    refine ⟨?_, ?_, hnumerals.mpr h.numerals, hands.mpr h.conjunctions,
      hors.mpr h.disjunctions⟩
    · exact (endsOutside_append_iff rest hquotes).mpr h.quotes
    · intro c hc
      rcases (standsOutside_append_iff rest c hquotes).mp hc with hc | hc
      · exact hcode c hc
      · exact h.characters c hc

theorem wellSpelled_separator
    {c : Char} (rest : List Char)
    (hc : Token.isSkipped c = true) :
    WellSpelled (c :: rest) ↔ WellSpelled rest := by
  have hshows : ∀ d, StandsOutside [c] d → Shows .semicolon d := by
    intro d hd
    rw [List.mem_singleton.mp hd.mem]
    exact .separator hc
  have hquotes : EndsOutside [c] := by
    refine endsOutside_of_not_mem fun hmem => ?_
    rw [← List.mem_singleton.mp hmem] at hc
    cases hc
  refine wellSpelled_append_iff (w := [c]) hquotes (fun d hd =>
    (hshows d hd).isCodeChar) ?_ ?_ ?_
  · exact everyRun_append_of_absent rfl hquotes fun d hd =>
      (hshows d hd).isNumeralChar_eq_false (by simp)
  · exact everyRun_append_of_absent rfl hquotes fun d hd =>
      beq_eq_false_iff_ne.mpr ((hshows d hd).ne_ampersand (by simp))
  · exact everyRun_append_of_absent rfl hquotes fun d hd =>
      beq_eq_false_iff_ne.mpr ((hshows d hd).ne_bar (by simp))

/-- A lexeme that is written and ends there makes no difference. -/
theorem Spelled.wellSpelled_append_iff
    (h : lexeme.Spelled w)
    (hends : lexeme.EndsBefore rest) :
    WellSpelled (w ++ rest) ↔ WellSpelled rest := by
  obtain ⟨hquotes, hshows⟩ := h.shows
  refine Lexeme.wellSpelled_append_iff hquotes (fun c hc =>
    (hshows c hc).isCodeChar) ?_ ?_ ?_
  · by_cases hnumber : ∃ digits, lexeme = .number digits
    · obtain ⟨digits, rfl⟩ := hnumber
      rw [everyRun_append_of_forall rfl h.2.1 hends, and_iff_right fun _ => h.2]
    · exact everyRun_append_of_absent rfl hquotes fun c hc =>
        (hshows c hc).isNumeralChar_eq_false fun digits heq => hnumber ⟨digits, heq⟩
  · by_cases hand : lexeme = .operator (.binary (.logic .and))
    · subst hand
      obtain rfl : w = ['&', '&'] := h
      exact everyRun_pair_append rest (by decide)
    · exact everyRun_append_of_absent rfl hquotes fun c hc =>
        beq_eq_false_iff_ne.mpr ((hshows c hc).ne_ampersand hand)
  · by_cases hor : lexeme = .operator (.binary (.logic .or))
    · subst hor
      obtain rfl : w = ['|', '|'] := h
      exact everyRun_pair_append rest (by decide)
    · exact everyRun_append_of_absent rfl hquotes fun c hc =>
        beq_eq_false_iff_ne.mpr ((hshows c hc).ne_bar hor)

end Pieces

/-- A run at the beginning of a text. -/
theorem isRun_leading
    {p : Char → Bool} {c : Char} {w rest : List Char}
    (hrun : ∀ d ∈ c :: w, p d = true)
    (hrest : ∀ d ∈ rest.head?, p d = false) :
    IsRun p (c :: (w ++ rest)) (c :: w) := by
  exact ⟨[], rest, rfl, rfl, List.cons_ne_nil c w, hrun, by simp, hrest⟩

/-- A mark is an operator of its own, unless it is punctuation. -/
theorem mem_punctuation_of_scan?
    {c : Char} {cs : List Char}
    (h : Operator.scan? c cs = none)
    (hc : c ∈ marks) :
    c ∈ ['(', ')', ';'] := by
  simp only [marks, List.mem_cons, List.not_mem_nil, or_false] at hc
  rcases hc with rfl | rfl | rfl | hc
  · decide
  · decide
  · decide
  · exfalso
    unfold Operator.scan? at h
    split at h
    all_goals simp_all

/-- A character that has to be doubled is not doubled where no operator is found. -/
theorem not_doubled_of_scan?
    {cs : List Char} {a : Char}
    (ha : a = '&' ∨ a = '|')
    (h : Operator.scan? a cs = none) :
    ∀ d ∈ cs.head?, (d == a) = false := by
  intro d hd
  cases cs with
  | nil => cases hd
  | cons e cs =>
      obtain rfl : e = d := Option.some.inj hd
      refine beq_eq_false_iff_ne.mpr ?_
      rintro rfl
      rcases ha with rfl | rfl
      · cases h
      · cases h

/-- Where no lexeme can be read, the text is not well spelled. -/
theorem Refusal.not_wellSpelled
    {c : Char} {cs : List Char} {cause : Cause}
    (h : Refusal c cs cause)
    (hskip : Token.isSkipped c = false) :
    ¬ WellSpelled (c :: cs) := by
  intro hspelled
  cases h with
  | string hc hcs =>
      have hquotes := hspelled.quotes
      rw [EndsOutside, hc, List.count_cons_self, List.count_eq_zero.mpr hcs] at hquotes
      cases hquotes
  | points hcs hrun hrest hpoints =>
      subst hcs
      have hcount := (hspelled.numerals _ (isRun_leading hrun hrest)).2.1
      omega
  | point hc hcs =>
      subst hc
      have hrun : ∀ d ∈ ['.'], isNumeralChar d = true := List.all_eq_true.mp rfl
      obtain ⟨d, hd, hdigit⟩ := (hspelled.numerals _ (isRun_leading hrun hcs)).2.2
      rw [List.mem_singleton.mp hd] at hdigit
      cases hdigit
  | character hc hcs =>
      obtain ⟨hnumeral, hword, hother⟩ := hc
      have hodd : ∀ a, a = '&' ∨ a = '|' → c = a → IsRun (· == a) (c :: cs) [c] := by
        rintro a ha rfl
        have hrun : ∀ d ∈ [c], (d == c) = true := by
          simp
        exact isRun_leading hrun (not_doubled_of_scan? ha hcs)
      have hcode := hspelled.characters c ⟨[], cs, rfl, rfl⟩
      simp only [isCodeChar, hskip, hword, hnumeral, Bool.false_or, Bool.or_eq_true,
        beq_iff_eq] at hcode
      rcases hcode with ((hmark | hquote) | hand) | hor
      · have hpunctuation := mem_punctuation_of_scan? hcs (List.contains_iff_mem.mp hmark)
        exact hother (List.mem_append_left ['"'] hpunctuation)
      · exact hother (by simp [hquote])
      · cases hspelled.conjunctions _ (hodd '&' (Or.inl rfl) hand)
      · cases hspelled.disjunctions _ (hodd '|' (Or.inr rfl) hor)

end Lexeme

/-- A text can be read if it is well spelled, and only then. -/
theorem TokenStream.exists_read_iff
    (pos : Pos) (cs : List Char) :
    (∃ stream, read pos cs = .ok stream) ↔ Lexeme.WellSpelled cs := by
  fun_induction read pos cs with
  | case1 pos => exact iff_of_true ⟨_, rfl⟩ Lexeme.wellSpelled_nil
  | case2 pos c cs hskip ih => rw [ih, Lexeme.wellSpelled_separator cs hskip]
  | case3 pos c cs hskip cause hscan =>
      have hrefused :=
        (Lexeme.refusal_of_scan_error hscan).not_wellSpelled (Bool.of_not_eq_true hskip)
      exact iff_of_false (by simp) hrefused
  | case4 pos c cs hskip lexeme n hscan fault hread ih =>
      obtain ⟨w, rest, rfl, rfl, hspelled, hends⟩ := Lexeme.spelled_of_scan hscan
      rw [List.take_left, List.drop_left] at hread ih
      rw [← List.cons_append, hspelled.wellSpelled_append_iff hends, ← ih, hread]
  | case5 pos c cs hskip lexeme n hscan stream hread ih =>
      obtain ⟨w, rest, rfl, rfl, hspelled, hends⟩ := Lexeme.spelled_of_scan hscan
      rw [List.take_left, List.drop_left] at hread ih
      rw [← List.cons_append, hspelled.wellSpelled_append_iff hends, ← ih, hread]
      exact iff_of_true ⟨_, rfl⟩ ⟨_, rfl⟩

/-- A text splits into tokens if it is well spelled, and only then. Any other text is
refused for a lexical fault. -/
theorem tokenize_succeeds_iff
    (source : String) :
    ((∃ stream, tokenize source = .ok stream) ↔ Lexeme.WellSpelled source.toList) ∧
      ((∃ fault, tokenize source = .error fault ∧ fault.cause.kind = .lexical) ↔
        ¬ Lexeme.WellSpelled source.toList) := by
  have hiff := TokenStream.exists_read_iff .start source.toList
  refine ⟨hiff, ?_⟩
  rw [← hiff]
  cases h : TokenStream.read .start source.toList with
  | ok stream => exact iff_of_false (by simp [tokenize, h]) (by simp)
  | error fault =>
      exact iff_of_true ⟨fault, h, TokenStream.kind_of_read_error h⟩ (by simp)

end LetLang
