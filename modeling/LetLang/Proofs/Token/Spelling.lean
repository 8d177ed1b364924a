import LetLang.Token.Scan

/-!
# How lexemes are written

The lexical grammar without a scanner. `Lexeme.Spelled` says which characters write a
lexeme, and `Lexeme.EndsBefore` what must not follow them, because it would still belong to
the lexeme. The main result is `Lexeme.scan_eq_ok_iff`: reading a lexeme gives exactly the
lexeme that is written at the beginning of the text and ends where the text goes on. Where
no lexeme can be read, `Lexeme.Refusal` says why.
-/

namespace LetLang

/-- The characters before the first one that fails a test. -/
theorem takeWhile_append_of_head
    {p : Char → Bool} {w rest : List Char}
    (hw : ∀ c ∈ w, p c = true)
    (hrest : ∀ c ∈ rest.head?, p c = false) :
    (w ++ rest).takeWhile p = w := by
  rw [List.takeWhile_append_of_pos hw]
  cases rest with
  | nil => simp
  | cons c cs =>
      have hc : p c = false := hrest c rfl
      simp [hc]

theorem drop_length_takeWhile
    (p : Char → Bool) (cs : List Char) :
    cs.drop (cs.takeWhile p).length = cs.dropWhile p := by
  induction cs with
  | nil => rfl
  | cons d ds ih =>
      cases hd : p d with
      | true => simpa [hd] using ih
      | false => simp [hd]

/-- A text is its leading characters of a class and what follows them. -/
theorem exists_leading
    (p : Char → Bool) (cs : List Char) :
    ∃ w rest,
      cs = w ++ rest ∧ cs.takeWhile p = w ∧ cs.drop w.length = rest ∧
      (∀ c ∈ w, p c = true) ∧ ∀ c ∈ rest.head?, p c = false := by
  refine ⟨cs.takeWhile p, cs.dropWhile p, ?_, rfl, drop_length_takeWhile p cs, ?_, ?_⟩
  · exact List.takeWhile_append_dropWhile.symm
  · exact List.all_eq_true.mp List.all_takeWhile
  · intro c hc
    simpa [Option.mem_def.mp hc] using List.head?_dropWhile_not p cs

namespace Lexeme

/-- Digits with at most one point among them. -/
def IsNumeral (cs : List Char) : Prop :=
  (∀ c ∈ cs, isNumeralChar c = true) ∧ cs.count '.' ≤ 1 ∧ ∃ c ∈ cs, c.isDigit = true

/-- A run of letters and underscores. -/
def IsWord (cs : List Char) : Prop :=
  cs ≠ [] ∧ ∀ c ∈ cs, isWordChar c = true

/-- The words that are no identifiers. -/
def keywords : List (List Char) :=
  [['l', 'e', 't'], ['c', 'o', 'n', 's', 't'], ['i', 'f'], ['e', 'l', 's', 'e']]

/-- The characters that write a lexeme. -/
def Spelled : Lexeme → List Char → Prop
  | number digits, cs => cs = digits.toList ∧ IsNumeral cs
  | identifier name, cs => cs = name.toList ∧ IsWord cs ∧ cs ∉ keywords
  | string text, cs => cs = '"' :: (text.toList ++ ['"']) ∧ '"' ∉ text.toList
  | conditional .orWhenTrue, cs =>
      ∃ gap, gap ≠ [] ∧ (∀ c ∈ gap, Token.isSkipped c = true) ∧
        cs = ['e', 'l', 's', 'e'] ++ gap ++ ['i', 'f']
  | other, cs => cs = other.text.toList

/-- The text goes on with separators and the word `if`. -/
def GoesOnWithIf (rest : List Char) : Prop :=
  ∃ gap after, gap ≠ [] ∧ (∀ c ∈ gap, Token.isSkipped c = true) ∧
    rest = gap ++ 'i' :: 'f' :: after ∧
    ∀ c ∈ after.head?, isWordChar c = false

/-- The text goes on with something that does not belong to the lexeme. -/
def EndsBefore : Lexeme → List Char → Prop
  | number _, rest => ∀ c ∈ rest.head?, isNumeralChar c = false
  | identifier _, rest | declare _, rest | conditional .whenTrue,
  rest | conditional .orWhenTrue, rest =>
      ∀ c ∈ rest.head?, isWordChar c = false
  | conditional .otherwise, rest =>
      (∀ c ∈ rest.head?, isWordChar c = false) ∧ ¬ GoesOnWithIf rest
  | operator .assign, rest | operator .not, rest | operator (.binary (.logic .gt)), rest
  | operator (.binary (.logic .lt)), rest => ∀ c ∈ rest.head?, c ≠ '='
  | _, _ => True

theorem isWordChar_iff
    (c : Char) :
    isWordChar c = true ↔
      (65 ≤ c.toNat ∧ c.toNat ≤ 90) ∨ (97 ≤ c.toNat ∧ c.toNat ≤ 122) ∨ c = '_' := by
  have halpha : c.isAlpha = (c.isUpper || c.isLower) := rfl
  have hupper : c.isUpper = decide ('A'.val ≤ c.val ∧ c.val ≤ 'Z'.val) := rfl
  have hlower : c.isLower = (decide ('a'.val ≤ c.val) && decide (c.val ≤ 'z'.val)) := rfl
  simp only [isWordChar, halpha, hupper, hlower, Bool.or_eq_true, Bool.and_eq_true,
    decide_eq_true_eq, beq_iff_eq, UInt32.le_iff_toNat_le, Char.toNat_val, or_assoc]
  rfl

theorem isNumeralChar_iff
    (c : Char) :
    isNumeralChar c = true ↔ (48 ≤ c.toNat ∧ c.toNat ≤ 57) ∨ c = '.' := by
  rw [isNumeralChar, Bool.or_eq_true, Char.isDigit_iff_toNat, beq_iff_eq]
  rfl

/-- Letters and underscores are no part of numerals. -/
theorem isNumeralChar_of_isWordChar
    {c : Char}
    (h : isWordChar c = true) :
    isNumeralChar c = false := by
  rw [← Bool.not_eq_true, isNumeralChar_iff]
  rcases (isWordChar_iff c).mp h with hupper | hlower | rfl
  · rintro (hdigit | rfl)
    · omega
    · exact absurd hupper (by decide)
  · rintro (hdigit | rfl)
    · omega
    · exact absurd hlower (by decide)
  · decide

theorem ne_of_class
    {p : Char → Bool} {c d : Char}
    (hc : p c = true)
    (hd : p d = false) :
    c ≠ d := by
  rintro rfl
  rw [hc] at hd
  cases hd

theorem scanString_eq_ok_iff
    (cs : List Char) (lexeme : Lexeme) (n : Nat) :
    scanString cs = .ok (lexeme, n) ↔
      ∃ text rest,
        cs = text ++ '"' :: rest ∧ '"' ∉ text ∧ lexeme =
          .string (String.ofList text) ∧ n = text.length + 1 := by
  obtain ⟨w, rest, rfl, htake, _, hw, hrest⟩ := exists_leading (· ≠ '"') cs
  have hno : '"' ∉ w := by
    intro hmem
    simpa using hw _ hmem
  have hunique : ∀ text rest', w ++ rest = text ++ '"' :: rest' →
      '"' ∉ text → text = w := by
    intro text rest' heq htext
    rw [heq] at htake
    rw [← htake]
    refine (takeWhile_append_of_head ?_ ?_).symm
    · intro c hc
      have hne : c ≠ '"' := fun h => htext (h ▸ hc)
      simpa using hne
    · simp
  unfold scanString
  simp only [htake]
  cases rest with
  | nil =>
      constructor
      · intro h
        simp at h
      · rintro ⟨text, rest', heq, htext, _⟩
        rw [hunique text rest' heq htext] at heq
        simp at heq
  | cons c rest =>
      have hc : c = '"' := by
        simpa using hrest c rfl
      subst hc
      constructor
      · intro h
        simp only [List.length_append, List.length_cons, Nat.lt_add_right_iff_pos,
          Nat.zero_lt_succ, if_true, Except.ok.injEq, Prod.mk.injEq] at h
        exact ⟨w, rest, rfl, hno, h.1.symm, h.2.symm⟩
      · rintro ⟨text, rest', heq, htext, rfl, rfl⟩
        rw [hunique text rest' heq htext]
        simp

/-- A run of digits and points is a numeral unless it has two points or is only a point. -/
theorem isNumeral_iff
    {run : List Char}
    (hrun : ∀ c ∈ run, isNumeralChar c = true)
    (hne : run ≠ []) :
    IsNumeral run ↔ ¬ 1 < run.count '.' ∧ run ≠ ['.'] := by
  constructor
  · rintro ⟨_, hcount, d, hd, hdigit⟩
    refine ⟨by omega, ?_⟩
    rintro rfl
    rw [List.mem_singleton] at hd
    subst hd
    simp at hdigit
  · rintro ⟨hcount, hpoint⟩
    refine ⟨hrun, by omega, ?_⟩
    apply Classical.byContradiction
    intro hnone
    have hpoints : ∀ c ∈ run, c = '.' := by
      intro c hc
      have hclass := hrun c hc
      have hdigit : c.isDigit = false := by
        cases h : c.isDigit with
        | false => rfl
        | true => exact absurd ⟨c, hc, h⟩ hnone
      simpa [isNumeralChar, hdigit] using hclass
    have hreplicate := List.eq_replicate_of_mem hpoints
    rw [hreplicate, List.count_replicate_self] at hcount
    have hlength : run.length = 1 := by
      have := List.length_pos_iff.mpr hne
      omega
    rw [hlength] at hreplicate
    exact hpoint hreplicate

/-- A run of digits and points is read as a number if it is a numeral. -/
theorem scanNumber_eq_ok_iff
    {c : Char} (cs : List Char) (lexeme : Lexeme) (n : Nat)
    (hc : isNumeralChar c = true) :
    scanNumber c cs = .ok (lexeme, n) ↔
      ∃ w rest,
        cs = w ++ rest ∧ n = w.length ∧ lexeme =
          .number (String.ofList (c :: w)) ∧ IsNumeral (c :: w) ∧
        ∀ d ∈ rest.head?, isNumeralChar d = false := by
  obtain ⟨w, rest, rfl, htake, _, hw, hrest⟩ := exists_leading isNumeralChar cs
  have hnumeral := isNumeral_iff (List.forall_mem_cons.mpr ⟨hc, hw⟩) (List.cons_ne_nil c w)
  have hunique : ∀ w' rest', w ++ rest = w' ++ rest' → IsNumeral (c :: w') →
      (∀ d ∈ rest'.head?, isNumeralChar d = false) → w' = w := by
    intro w' rest' heq hw' hrest'
    rw [heq] at htake
    rw [← htake]
    exact (takeWhile_append_of_head (fun d hd =>
      hw'.1 d (List.mem_cons_of_mem c hd)) hrest').symm
  unfold scanNumber
  simp only [htake]
  constructor
  · intro h
    split at h
    · cases h
    · rename_i hcount
      split at h
      · cases h
      · rename_i hpoint
        cases h
        exact ⟨w, rest, rfl, rfl, rfl, hnumeral.mpr ⟨hcount, hpoint⟩, hrest⟩
  · rintro ⟨w', rest', heq, rfl, rfl, hw', hrest'⟩
    obtain rfl := hunique w' rest' heq hw' hrest'
    obtain ⟨hcount, hpoint⟩ := hnumeral.mp hw'
    rw [if_neg hcount, if_neg hpoint]

/-- The word `if` after some separators is found exactly where the text goes on with it. -/
theorem elseIfLength?_eq_some_iff
    (cs : List Char) (n : Nat) :
    elseIfLength? cs = some n ↔
      ∃ gap after,
        gap ≠ [] ∧ (∀ c ∈ gap, Token.isSkipped c = true) ∧
          cs = gap ++ 'i' :: 'f' :: after ∧
        (∀ c ∈ after.head?, isWordChar c = false) ∧ n = gap.length + 2 := by
  obtain ⟨gap, rest, rfl, htake, hdrop, hgap, hrest⟩ := exists_leading Token.isSkipped cs
  have hunique : ∀ gap' after, gap ++ rest = gap' ++ 'i' :: 'f' :: after →
      (∀ c ∈ gap', Token.isSkipped c = true) → gap' = gap := by
    intro gap' after heq hgap'
    rw [heq] at htake
    rw [← htake]
    refine (takeWhile_append_of_head hgap' ?_).symm
    simp [Token.isSkipped]
  unfold elseIfLength?
  simp only [htake, hdrop]
  constructor
  · intro h
    split at h
    · cases h
    · rename_i after hne
      split at h
      · cases h
      · rename_i hword
        cases h
        refine ⟨gap, after, ?_, hgap, rfl, ?_, rfl⟩
        · intro hnil
          exact hne hnil
        · intro c hc
          cases after with
          | nil => simp at hc
          | cons d ds =>
              simp only [List.head?_cons, Option.mem_def, Option.some.injEq] at hc
              subst hc
              simpa using hword
    · cases h
  · rintro ⟨gap', after, hne, hgap', heq, hafter, rfl⟩
    obtain rfl := hunique gap' after heq hgap'
    obtain rfl := List.append_cancel_left heq
    cases gap' with
    | nil => exact absurd rfl hne
    | cons g gs =>
        have hword : after.head?.any isWordChar = false := by
          cases after with
          | nil => rfl
          | cons d ds => simpa using hafter d rfl
        simp [hword]

theorem elseIfLength?_eq_none_iff
    (cs : List Char) :
    elseIfLength? cs = none ↔ ¬ GoesOnWithIf cs := by
  constructor
  · rintro h ⟨gap, after, hne, hgap, heq, hafter⟩
    have hsome :=
      (elseIfLength?_eq_some_iff cs _).mpr ⟨gap, after, hne, hgap, heq, hafter, rfl⟩
    rw [h] at hsome
    cases hsome
  · intro h
    cases hlength : elseIfLength? cs with
    | none => rfl
    | some n =>
        obtain ⟨gap, after, hne, hgap, heq, hafter, _⟩ :=
          (elseIfLength?_eq_some_iff cs n).mp hlength
        exact absurd ⟨gap, after, hne, hgap, heq, hafter⟩ h

/-- A word is read to its end, and then as far as the word `if` if it is `else`. -/
theorem scanWord_append
    {c : Char} {w rest : List Char}
    (hw : ∀ d ∈ w, isWordChar d = true)
    (hrest : ∀ d ∈ rest.head?, isWordChar d = false) :
    scanWord c (w ++ rest) =
      match ofWord (c :: w), elseIfLength? rest with
      | .conditional .otherwise, some n => (.conditional .orWhenTrue, w.length + n)
      | _, _ => (ofWord (c :: w), w.length) := by
  have htake := takeWhile_append_of_head hw hrest
  have hscan : scanWord c (w ++ rest) =
      match ofWord (c :: (w ++ rest).takeWhile isWordChar),
        elseIfLength? ((w ++ rest).drop ((w ++ rest).takeWhile isWordChar).length) with
      | .conditional .otherwise, some n =>
          (.conditional .orWhenTrue, ((w ++ rest).takeWhile isWordChar).length + n)
      | _, _ =>
          (ofWord (c :: (w ++ rest).takeWhile isWordChar),
            ((w ++ rest).takeWhile isWordChar).length) := rfl
  rw [htake, List.drop_left] at hscan
  exact hscan

theorem spelled_ofWord
    {w : List Char}
    (hw : IsWord w) :
    (ofWord w).Spelled w := by
  unfold ofWord
  split
  · rename_i h
    exact h
  · rename_i h₁
    split
    · rename_i h
      exact h
    · rename_i h₂
      split
      · rename_i h
        exact h
      · rename_i h₃
        split
        · rename_i h
          exact h
        · rename_i h₄
          refine ⟨String.toList_ofList.symm, hw, ?_⟩
          simp [keywords, h₁, h₂, h₃, h₄]

theorem ofWord_eq_identifier
    {w : List Char}
    (hw : w ∉ keywords) :
    ofWord w = .identifier (String.ofList w) := by
  simp only [keywords, List.mem_cons, List.not_mem_nil, or_false, not_or] at hw
  obtain ⟨h₁, h₂, h₃, h₄⟩ := hw
  unfold ofWord
  rw [if_neg h₁, if_neg h₂, if_neg h₃, if_neg h₄]

theorem eq_else_of_ofWord
    {w : List Char}
    (h : ofWord w = .conditional .otherwise) :
    w = ['e', 'l', 's', 'e'] := by
  unfold ofWord at h
  split at h
  · cases h
  · split at h
    · cases h
    · split at h
      · cases h
      · split at h
        · assumption
        · cases h

/-- Reading a word finds a lexeme that is written there. -/
theorem spelled_of_scanWord
    {c : Char} {cs : List Char} {lexeme : Lexeme} {n : Nat}
    (hc : isWordChar c = true)
    (h : scanWord c cs = (lexeme, n)) :
    ∃ w rest, cs = w ++ rest ∧ n = w.length ∧ lexeme.Spelled (c :: w) ∧
      lexeme.EndsBefore rest := by
  obtain ⟨w, rest, rfl, _, _, hw, hrest⟩ := exists_leading isWordChar cs
  have hword : IsWord (c :: w) := ⟨List.cons_ne_nil c w, List.forall_mem_cons.mpr ⟨hc, hw⟩⟩
  rw [scanWord_append hw hrest] at h
  split at h
  · rename_i k helse hif
    cases h
    obtain ⟨gap, after, hne, hgap, rfl, hafter, rfl⟩ :=
      (elseIfLength?_eq_some_iff rest k).mp hif
    refine ⟨w ++ gap ++ ['i', 'f'], after, by simp, by simp, ?_, hafter⟩
    refine ⟨gap, hne, hgap, ?_⟩
    rw [← eq_else_of_ofWord helse]
    simp
  · rename_i hnot
    cases h
    refine ⟨w, rest, rfl, rfl, spelled_ofWord hword, ?_⟩
    cases hlexeme : ofWord (c :: w) with
    | conditional branch =>
        cases branch with
        | whenTrue => exact hrest
        | orWhenTrue => exact hrest
        | otherwise =>
            refine ⟨hrest, (elseIfLength?_eq_none_iff rest).mp ?_⟩
            cases hif : elseIfLength? rest with
            | none => rfl
            | some k => exact absurd hif (hnot k hlexeme)
    | identifier name => exact hrest
    | declare constant => exact hrest
    | _ =>
        unfold ofWord at hlexeme
        repeat' split at hlexeme
        all_goals cases hlexeme

end Lexeme

namespace Operator

theorem ne_of_not_cons
    {d : Char} {cs : List Char}
    (h : ∀ tail, cs = d :: tail → False) :
    ∀ c ∈ cs.head?, c ≠ d := by
  intro c hc hcd
  cases cs with
  | nil => simp at hc
  | cons e es =>
      simp only [List.head?_cons, Option.mem_def, Option.some.injEq] at hc
      exact h es (by rw [hc, hcd])

/-- Reading an operator finds one that is written there and ends there. -/
theorem spelled_of_scan?
    {c : Char} {cs : List Char} {op : Operator} {n : Nat}
    (h : scan? c cs = some (op, n)) :
    ∃ w rest,
      cs = w ++ rest ∧ n = w.length ∧ op.symbol.toList = c :: w ∧
        Lexeme.EndsBefore (.operator op) rest := by
  unfold scan? at h
  split at h
  all_goals cases h
  all_goals
    first
      | exact ⟨['='], _, rfl, rfl, rfl, trivial⟩
      | exact ⟨['&'], _, rfl, rfl, rfl, trivial⟩
      | exact ⟨['|'], _, rfl, rfl, rfl, trivial⟩
      | exact ⟨[], _, rfl, rfl, rfl, trivial⟩
      | exact ⟨[], _, rfl, rfl, rfl, ne_of_not_cons (by assumption)⟩

theorem scan?_before_other
    {d : Char}
    (hd : d ≠ '=')
    (ds : List Char) :
    scan? '>' (d :: ds) = some (.binary (.logic .gt), 0) ∧
      scan? '<' (d :: ds) = some (.binary (.logic .lt), 0) ∧
      scan? '=' (d :: ds) = some (.assign, 0) ∧
      scan? '!' (d :: ds) = some (.not, 0) := by
  simp [scan?, hd]

/-- An operator that is written and ends there is read. -/
theorem scan?_of_spelled
    {c : Char} {w rest : List Char} {op : Operator}
    (hsymbol : op.symbol.toList = c :: w)
    (hends : Lexeme.EndsBefore (.operator op) rest) :
    scan? c (w ++ rest) = some (op, w.length) := by
  cases rest with
  | nil =>
      rcases op with (op | op) | _ | _
      · cases op <;> cases hsymbol <;> rfl
      · cases op <;> cases hsymbol <;> rfl
      · cases hsymbol; rfl
      · cases hsymbol; rfl
  | cons d ds =>
      rcases op with (op | op) | _ | _
      · cases op <;> cases hsymbol <;> rfl
      · cases op
        case gt => cases hsymbol; exact (scan?_before_other (hends d rfl) ds).1
        case lt => cases hsymbol; exact (scan?_before_other (hends d rfl) ds).2.1
        all_goals cases hsymbol; rfl
      · cases hsymbol; exact (scan?_before_other (hends d rfl) ds).2.2.1
      · cases hsymbol; exact (scan?_before_other (hends d rfl) ds).2.2.2

end Operator

namespace Lexeme

theorem scan_of_isNumeralChar
    {c : Char}
    (hc : isNumeralChar c = true)
    (cs : List Char) :
    scan c cs = scanNumber c cs := by
  unfold scan
  rw [if_neg (ne_of_class hc (by decide)), if_neg (ne_of_class hc (by decide)),
    if_neg (ne_of_class hc (by decide)), if_neg (ne_of_class hc (by decide)), if_pos hc]

theorem scan_of_isWordChar
    {c : Char}
    (hc : isWordChar c = true)
    (cs : List Char) :
    scan c cs = .ok (scanWord c cs) := by
  unfold scan
  rw [if_neg (ne_of_class hc (by decide)), if_neg (ne_of_class hc (by decide)),
    if_neg (ne_of_class hc (by decide)), if_neg (ne_of_class hc (by decide)),
    isNumeralChar_of_isWordChar hc, if_neg Bool.false_ne_true, if_pos hc]

theorem scan_of_operator
    {c : Char} {cs : List Char} {op : Operator} {n : Nat}
    (h : Operator.scan? c cs = some (op, n)) :
    scan c cs = .ok (.operator op, n) := by
  have hc : c ∈ ['=', '!', '&', '|', '>', '<', '+', '-', '*', '/', '%'] := by
    unfold Operator.scan? at h
    split at h
    all_goals first | decide | cases h
  have hclass : ∀ d ∈ ['=', '!', '&', '|', '>', '<', '+', '-', '*', '/', '%'],
      d ≠ '(' ∧ d ≠ ')' ∧ d ≠ ';' ∧ d ≠ '"' ∧ isNumeralChar d = false ∧
        isWordChar d = false := by
    intro d hd
    simp only [List.mem_cons, List.not_mem_nil, or_false] at hd
    rcases hd with rfl | rfl | rfl | rfl | rfl | rfl | rfl | rfl | rfl | rfl | rfl
    all_goals decide
  obtain ⟨hopen, hclose, hsemicolon, hquote, hnumeral, hword⟩ := hclass c hc
  unfold scan
  rw [if_neg hopen, if_neg hclose, if_neg hsemicolon, if_neg hquote, hnumeral, hword,
    if_neg Bool.false_ne_true, if_neg Bool.false_ne_true, h]

/-- What is read is written at the beginning of the text and ends there. -/
theorem spelled_of_scan
    {c : Char} {cs : List Char} {lexeme : Lexeme} {n : Nat}
    (h : scan c cs = .ok (lexeme, n)) :
    ∃ w rest, cs = w ++ rest ∧ n = w.length ∧ lexeme.Spelled (c :: w) ∧
      lexeme.EndsBefore rest := by
  unfold scan at h
  split at h
  · rename_i hc
    cases h
    exact ⟨[], cs, rfl, rfl, by rw [hc]; rfl, trivial⟩
  · split at h
    · rename_i hc
      cases h
      exact ⟨[], cs, rfl, rfl, by rw [hc]; rfl, trivial⟩
    · split at h
      · rename_i hc
        cases h
        exact ⟨[], cs, rfl, rfl, by rw [hc]; rfl, trivial⟩
      · split at h
        · rename_i hc
          obtain ⟨text, rest, rfl, htext, rfl, rfl⟩ :=
            (scanString_eq_ok_iff cs lexeme n).mp h
          refine ⟨text ++ ['"'], rest, by simp, by simp, ?_, trivial⟩
          simp [Spelled, hc, htext]
        · split at h
          · rename_i hc
            obtain ⟨w, rest, rfl, rfl, rfl, hnumeral, hrest⟩ :=
              (scanNumber_eq_ok_iff cs lexeme n hc).mp h
            exact ⟨w, rest, rfl, rfl, ⟨String.toList_ofList.symm, hnumeral⟩, hrest⟩
          · split at h
            · rename_i hc
              exact spelled_of_scanWord hc (Except.ok.inj h)
            · split at h
              · rename_i op k hop
                cases h
                obtain ⟨w, rest, hcs, hn, hsymbol, hends⟩ := Operator.spelled_of_scan? hop
                exact ⟨w, rest, hcs, hn, hsymbol.symm, hends⟩
              · cases h

theorem isWordChar_of_isSkipped
    {c : Char}
    (hc : Token.isSkipped c = true) :
    isWordChar c = false := by
  simp only [Token.isSkipped, Bool.or_eq_true, beq_iff_eq] at hc
  rcases hc with ((rfl | rfl) | rfl) | rfl <;> rfl

/-- A word that ends before `rest` is read, and no further unless it is `else`. -/
theorem scan_word
    {c : Char} {w rest : List Char} {lexeme : Lexeme}
    (hword : IsWord (c :: w))
    (hlexeme : ofWord (c :: w) = lexeme)
    (hrest : ∀ d ∈ rest.head?, isWordChar d = false)
    (helse : lexeme = .conditional .otherwise → ¬ GoesOnWithIf rest) :
    scan c (w ++ rest) = .ok (lexeme, w.length) := by
  rw [scan_of_isWordChar (hword.2 c List.mem_cons_self),
    scanWord_append (fun d hd => hword.2 d (List.mem_cons_of_mem c hd)) hrest, hlexeme]
  split
  · rename_i k hif
    rw [(elseIfLength?_eq_none_iff rest).mpr (helse rfl)] at hif
    cases hif
  · rfl

/-- The words `else` and `if` are read as one lexeme, whatever separates them. -/
theorem scan_else_if
    {gap rest : List Char}
    (hne : gap ≠ [])
    (hgap : ∀ d ∈ gap, Token.isSkipped d = true)
    (hrest : ∀ d ∈ rest.head?, isWordChar d = false) :
    scan 'e' (['l', 's', 'e'] ++ gap ++ ['i', 'f'] ++ rest) =
      .ok (.conditional .orWhenTrue, (['l', 's', 'e'] ++ gap ++ ['i', 'f']).length) := by
  have hhead : ∀ d ∈ (gap ++ 'i' :: 'f' :: rest).head?, isWordChar d = false := by
    intro d hd
    refine isWordChar_of_isSkipped (hgap d ?_)
    cases gap with
    | nil => exact absurd rfl hne
    | cons g gs =>
        simp only [List.cons_append, List.head?_cons, Option.mem_def,
          Option.some.injEq] at hd
        simp [hd]
  have hif := (elseIfLength?_eq_some_iff (gap ++ 'i' :: 'f' :: rest) _).mpr
    ⟨gap, rest, hne, hgap, rfl, hrest, rfl⟩
  have helse : ∀ d ∈ ['l', 's', 'e'], isWordChar d = true := List.all_eq_true.mp rfl
  have htext : ['l', 's', 'e'] ++ gap ++ ['i', 'f'] ++ rest =
      ['l', 's', 'e'] ++ (gap ++ 'i' :: 'f' :: rest) := by
    simp
  rw [scan_of_isWordChar (by decide), htext, scanWord_append helse hhead, hif]
  simp [ofWord]
  omega

/-- What is written at the beginning of the text and ends there is read. -/
theorem scan_of_spelled
    {c : Char} {w rest : List Char} {lexeme : Lexeme}
    (hspelled : lexeme.Spelled (c :: w))
    (hends : lexeme.EndsBefore rest) :
    scan c (w ++ rest) = .ok (lexeme, w.length) := by
  cases lexeme with
  | number digits =>
      obtain ⟨hdigits, hnumeral⟩ := hspelled
      have hc := hnumeral.1 c List.mem_cons_self
      rw [scan_of_isNumeralChar hc]
      refine (scanNumber_eq_ok_iff _ _ _ hc).mpr ⟨w, rest, rfl, rfl, ?_, hnumeral, hends⟩
      rw [hdigits, String.ofList_toList]
  | identifier name =>
      obtain ⟨hname, hword, hkeyword⟩ := hspelled
      refine scan_word hword ?_ hends (fun h => by cases h)
      rw [ofWord_eq_identifier hkeyword, hname, String.ofList_toList]
  | string text =>
      obtain ⟨htext, hquote⟩ := hspelled
      obtain ⟨rfl, rfl⟩ := List.cons.inj htext
      refine (scanString_eq_ok_iff _ _ _).mpr
        ⟨text.toList, rest, by simp, hquote, by simp, by simp⟩
  | operator op => exact scan_of_operator (Operator.scan?_of_spelled hspelled.symm hends)
  | semicolon =>
      obtain ⟨rfl, rfl⟩ := List.cons.inj hspelled
      rfl
  | openParen =>
      obtain ⟨rfl, rfl⟩ := List.cons.inj hspelled
      rfl
  | closeParen =>
      obtain ⟨rfl, rfl⟩ := List.cons.inj hspelled
      rfl
  | declare constant =>
      cases constant with
      | false =>
          obtain ⟨rfl, rfl⟩ : c = 'l' ∧ w = ['e', 't'] := List.cons.inj hspelled
          exact scan_word (by simp [IsWord, isWordChar]) rfl hends (fun h => by cases h)
      | true =>
          obtain ⟨rfl, rfl⟩ : c = 'c' ∧ w = ['o', 'n', 's', 't'] := List.cons.inj hspelled
          exact scan_word (by simp [IsWord, isWordChar]) rfl hends (fun h => by cases h)
  | conditional branch =>
      cases branch with
      | whenTrue =>
          obtain ⟨rfl, rfl⟩ : c = 'i' ∧ w = ['f'] := List.cons.inj hspelled
          exact scan_word (by simp [IsWord, isWordChar]) rfl hends (fun h => by cases h)
      | otherwise =>
          obtain ⟨rfl, rfl⟩ : c = 'e' ∧ w = ['l', 's', 'e'] := List.cons.inj hspelled
          exact scan_word (by simp [IsWord, isWordChar]) rfl hends.1 (fun _ => hends.2)
      | orWhenTrue =>
          obtain ⟨gap, hne, hgap, heq⟩ := hspelled
          obtain ⟨rfl, rfl⟩ : c = 'e' ∧ w = ['l', 's', 'e'] ++ gap ++ ['i', 'f'] :=
            List.cons.inj heq
          exact scan_else_if hne hgap hends

/-- Reading a lexeme gives the lexeme that is written at the beginning of the text and ends
where the text goes on. -/
theorem scan_eq_ok_iff
    (c : Char) (cs : List Char) (lexeme : Lexeme) (n : Nat) :
    scan c cs = .ok (lexeme, n) ↔
      ∃ w rest, cs = w ++ rest ∧ n = w.length ∧ lexeme.Spelled (c :: w) ∧
        lexeme.EndsBefore rest := by
  constructor
  · exact spelled_of_scan
  · rintro ⟨w, rest, rfl, rfl, hspelled, hends⟩
    exact scan_of_spelled hspelled hends

theorem scanString_error
    {cs : List Char} {cause : Cause}
    (h : scanString cs = .error cause) :
    '"' ∉ cs ∧ cause = .unterminatedString (String.ofList ('"' :: cs)) := by
  obtain ⟨w, rest, rfl, htake, _, hw, _⟩ := exists_leading (· ≠ '"') cs
  simp only [scanString, htake] at h
  split at h
  · cases h
  · rename_i hlength
    cases h
    obtain rfl : rest = [] := by
      rw [← List.length_eq_zero_iff]
      rw [List.length_append] at hlength
      omega
    refine ⟨fun hmem => ?_, rfl⟩
    rw [List.append_nil] at hmem
    simpa using hw _ hmem

theorem scanNumber_error
    {c : Char} {cs : List Char} {cause : Cause}
    (h : scanNumber c cs = .error cause) :
    ∃ w rest, cs = w ++ rest ∧ (∀ d ∈ w, isNumeralChar d = true) ∧
      (∀ d ∈ rest.head?, isNumeralChar d = false) ∧
      (1 < (c :: w).count '.' ∧ cause =
        .extraPoint (String.ofList (throughSecondPoint (c :: w))) ∨
        c :: w = ['.'] ∧ cause = .noDigits (String.ofList (c :: w))) := by
  obtain ⟨w, rest, rfl, htake, _, hw, hrest⟩ := exists_leading isNumeralChar cs
  refine ⟨w, rest, rfl, hw, hrest, ?_⟩
  simp only [scanNumber, htake] at h
  split at h
  · rename_i hcount
    cases h
    exact Or.inl ⟨hcount, rfl⟩
  · split at h
    · rename_i hpoint
      cases h
      exact Or.inr ⟨hpoint, rfl⟩
    · cases h

/-- Why no lexeme can be read at the beginning of a text: a string is not closed, digits
and points make no numeral, or the character starts no lexeme. -/
inductive Refusal (c : Char) (cs : List Char) : Cause → Prop
  | string
      (hc : c = '"')
      (hcs : '"' ∉ cs) :
      Refusal c cs (.unterminatedString (String.ofList (c :: cs)))
  | points
      {w rest : List Char}
      (hcs : cs = w ++ rest)
      (hrun : ∀ d ∈ c :: w, isNumeralChar d = true)
      (hrest : ∀ d ∈ rest.head?, isNumeralChar d = false)
      (hpoints : 1 < (c :: w).count '.') :
      Refusal c cs (.extraPoint (String.ofList (throughSecondPoint (c :: w))))
  | point
      (hc : c = '.')
      (hcs : ∀ d ∈ cs.head?, isNumeralChar d = false) :
      Refusal c cs (.noDigits ".")
  | character
      (hc : isNumeralChar c = false ∧ isWordChar c = false ∧ c ∉ ['(', ')', ';', '"'])
      (hcs : Operator.scan? c cs = none) :
      Refusal c cs (.unexpectedCharacter c)

theorem refusal_of_scan_error
    {c : Char} {cs : List Char} {cause : Cause}
    (h : scan c cs = .error cause) :
    Refusal c cs cause := by
  unfold scan at h
  split at h
  · cases h
  · rename_i hopen
    split at h
    · cases h
    · rename_i hclose
      split at h
      · cases h
      · rename_i hsemicolon
        split at h
        · rename_i hquote
          obtain ⟨hcs, rfl⟩ := scanString_error h
          subst hquote
          exact .string rfl hcs
        · rename_i hquote
          split at h
          · rename_i hnumeral
            obtain ⟨w, rest, rfl, hw, hrest, ⟨hcount, rfl⟩ | ⟨hpoint, rfl⟩⟩ :=
              scanNumber_error h
            · exact .points rfl (List.forall_mem_cons.mpr ⟨hnumeral, hw⟩) hrest hcount
            · cases hpoint
              exact .point rfl hrest
          · rename_i hnumeral
            split at h
            · cases h
            · rename_i hword
              split at h
              · cases h
              · rename_i hoperator
                cases h
                refine .character ⟨?_, ?_, ?_⟩ hoperator
                · simpa using hnumeral
                · simpa using hword
                · simp [hopen, hclose, hsemicolon, hquote]

/-- A lexeme that cannot be read is a lexical fault. -/
theorem kind_of_scan_error
    {c : Char} {cs : List Char} {cause : Cause}
    (h : scan c cs = .error cause) :
    cause.kind = .lexical := by
  cases refusal_of_scan_error h <;> rfl

end Lexeme

namespace TokenStream

/-- Every fault in splitting a text is lexical. -/
theorem kind_of_read_error
    {pos : Pos} {cs : List Char} {fault : Fault}
    (h : read pos cs = .error fault) :
    fault.cause.kind = .lexical := by
  fun_induction read pos cs with
  | case1 pos => cases h
  | case2 pos c cs hskip ih => exact ih h
  | case3 pos c cs hskip cause hscan =>
      cases h
      exact Lexeme.kind_of_scan_error hscan
  | case4 pos c cs hskip lexeme n hscan fault' hread ih =>
      cases h
      exact ih hread
  | case5 pos c cs hskip lexeme n hscan stream hread ih => cases h

/-- Every token of a text is written as its lexeme is spelled. -/
theorem spelled_of_mem_read
    {pos : Pos} {cs : List Char} {stream : TokenStream} {t : Token}
    (h : read pos cs = .ok stream)
    (ht : t ∈ stream.tokens) :
    ∃ w, t.lexeme.Spelled w := by
  fun_induction read pos cs generalizing stream with
  | case1 pos =>
      cases h
      cases ht
  | case2 pos c cs hskip ih => exact ih h ht
  | case3 pos c cs hskip cause hscan => cases h
  | case4 pos c cs hskip lexeme n hscan fault' hread ih => cases h
  | case5 pos c cs hskip lexeme n hscan rest hread ih =>
      cases h
      rcases List.mem_cons.mp ht with rfl | htail
      · obtain ⟨w, _, _, _, hspelled, _⟩ := Lexeme.spelled_of_scan hscan
        exact ⟨c :: w, hspelled⟩
      · exact ih hread htail

end TokenStream
end LetLang
