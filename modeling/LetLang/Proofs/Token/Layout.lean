import LetLang.Proofs.Text.Tidying
import LetLang.Proofs.Token.Spacing

/-!
# Layout does not change the tokens

Blanks at the ends of lines and blank lines can be taken away from a text. The tokens of
the text stay the same, up to the string literals that have such blanks themselves, if the
blanks are separators. A blank that is no separator is refused where it stands; so where it
is taken away, a text may be accepted that was refused for this blank alone.
-/

namespace LetLang

namespace Text

/-- Visible characters of the basic character set are not blank. -/
theorem isBlank_of_visible
    {c : Char}
    (hlow : 33 ≤ c.toNat)
    (hhigh : c.toNat ≤ 126) :
    isBlank c = false := by
  simp only [isBlank, inRanges, blankRanges, List.any_cons, List.any_nil, Bool.or_false,
    Bool.or_eq_false_iff, Bool.and_eq_false_iff, decide_eq_false_iff_not]
  omega

/-- A blank stands at the end of a line that is not the last one. -/
def IsRagged (cs : List Char) : Prop :=
  ∃ c, isBlank c = true ∧ [c, '\n'] <:+: cs

/-- Where a blank is followed by nothing but blanks on its line, but not by the closing
quote, there is a blank before a newline. -/
theorem isRagged_of_endsLine
    {c : Char} {body rest : List Char}
    (hblank : isBlank c = true)
    (h : endsLine (body ++ '"' :: rest) = true) :
    IsRagged (c :: body) := by
  induction body generalizing c with
  | nil =>
      rw [List.nil_append, endsLine_cons_of_ink rest rfl] at h
      cases h
  | cons d body ih =>
      by_cases hd : d = '\n'
      · subst hd
        exact ⟨c, hblank, [], body, rfl⟩
      · rw [List.cons_append, endsLine_cons _ hd, Bool.and_eq_true] at h
        obtain ⟨e, he, hinfix⟩ := ih h.1 h.2
        exact ⟨e, he, hinfix.trans (List.suffix_cons c (d :: body)).isInfix⟩

/-- A literal stays a literal, and it stays as it is unless it has a blank at the end of
a line. -/
theorem exists_tidy_literal
    {body : List Char} (rest : List Char)
    (hbody : '"' ∉ body) :
    ∃ body', tidy (body ++ '"' :: rest) = body' ++ '"' :: tidy rest ∧ '"' ∉ body' ∧
      (body' = body ∨ IsRagged body) := by
  induction body with
  | nil => exact ⟨[], tidy_cons_of_ink rest rfl, hbody, Or.inl rfl⟩
  | cons c body ih =>
      rw [List.mem_cons, not_or] at hbody
      obtain ⟨body', htidy, hquote, hsame⟩ := ih hbody.2
      rw [List.cons_append, tidy, htidy]
      split
      · rename_i hdropped
        rw [Bool.and_eq_true] at hdropped
        exact ⟨body', rfl, hquote, Or.inr (isRagged_of_endsLine hdropped.1 hdropped.2)⟩
      · refine ⟨c :: body', rfl, by simp [hbody.1, hquote], ?_⟩
        rcases hsame with rfl | ⟨d, hd, hinfix⟩
        · exact Or.inl rfl
        · exact Or.inr ⟨d, hd, hinfix.trans (List.suffix_cons c body).isInfix⟩

/-- Of the blanks before a character that stays some are left, if there are any. -/
theorem exists_tidy_gap
    {gap : List Char} {c : Char} {cs : List Char}
    (hgap : ∀ d ∈ gap, isBlank d = true)
    (hnewline : c ≠ '\n')
    (hkept : (isBlank c && endsLine cs) = false) :
    ∃ gap', tidy (gap ++ c :: cs) = gap' ++ c :: tidy cs ∧ gap' ⊆ gap ∧
      (gap' = [] → gap = []) := by
  induction gap with
  | nil =>
      refine ⟨[], ?_, List.Subset.refl _, fun _ => rfl⟩
      rw [List.nil_append, tidy, hkept]
      rfl
  | cons d gap ih =>
      obtain ⟨gap', htidy, hsubset, hnil⟩ :=
        ih fun e he => hgap e (List.mem_cons_of_mem d he)
      rw [List.cons_append, tidy, htidy]
      split
      · rename_i hdropped
        refine ⟨gap', rfl, fun e he => List.mem_cons_of_mem d (hsubset he), ?_⟩
        intro hgap'
        -- the last blank is not at the end of a line
        obtain rfl := hnil hgap'
        rw [List.nil_append, endsLine_cons cs hnewline, hkept, Bool.and_false] at hdropped
        cases hdropped
      · refine ⟨d :: gap', rfl, ?_, ?_⟩
        · exact List.cons_subset.mpr ⟨List.mem_cons_self, fun e he =>
            List.mem_cons_of_mem d (hsubset he)⟩
        · intro hcons
          cases hcons

end Text

open Text

namespace Lexeme

theorem isBlank_of_isSkipped
    {c : Char}
    (h : Token.isSkipped c = true) :
    isBlank c = true := by
  rcases isSkipped_cases h with rfl | rfl | rfl | rfl <;> rfl

/-- The characters of words and numbers are not blank. -/
theorem isBlank_of_class
    {c : Char}
    (h : isWordChar c = true ∨ isNumeralChar c = true) :
    isBlank c = false := by
  rw [isWordChar_iff, isNumeralChar_iff] at h
  rcases h with (hupper | hlower | rfl) | hdigit | rfl
  · exact isBlank_of_visible (by omega) (by omega)
  · exact isBlank_of_visible (by omega) (by omega)
  · rfl
  · exact isBlank_of_visible (by omega) (by omega)
  · rfl

/-- No blank is written in a lexeme, except in a string and between two words. -/
theorem Spelled.ink
    {lexeme : Lexeme} {w : List Char}
    (h : lexeme.Spelled w)
    (hstring : ∀ text, lexeme ≠ .string text)
    (hwords : lexeme ≠ .conditional .orWhenTrue) :
    ∀ c ∈ w, isBlank c = false := by
  have hfixed : ∀ {v : List Char}, v.all (fun c => !isBlank c) = true → w = v →
      ∀ c ∈ w, isBlank c = false := by
    rintro v hv rfl c hc
    simpa using List.all_eq_true.mp hv c hc
  cases lexeme with
  | number digits =>
      obtain ⟨_, hclass, _⟩ := h
      exact fun c hc => isBlank_of_class (Or.inr (hclass c hc))
  | identifier name =>
      obtain ⟨_, hword, _⟩ := h
      exact fun c hc => isBlank_of_class (Or.inl (hword.2 c hc))
  | string text => exact absurd rfl (hstring text)
  | operator op =>
      rcases op with (op | op) | _ | _
      · cases op <;> exact hfixed rfl h
      · cases op <;> exact hfixed rfl h
      · exact hfixed rfl h
      · exact hfixed rfl h
  | declare constant => cases constant <;> exact hfixed rfl h
  | conditional branch =>
      cases branch with
      | orWhenTrue => exact absurd rfl hwords
      | whenTrue => exact hfixed rfl h
      | otherwise => exact hfixed rfl h
  | semicolon => exact hfixed rfl h
  | openParen => exact hfixed rfl h
  | closeParen => exact hfixed rfl h

/-- The lexemes are the same. Only of a string with a blank at the end of a line nothing
more is said than that it is a string. -/
inductive Resembles : Lexeme → Lexeme → Prop
  | same (lexeme : Lexeme) : Resembles lexeme lexeme
  | string
      (other : String) {text : String}
      (hragged : IsRagged text.toList) :
      Resembles (.string other) (.string text)

/-- Resembling lexemes end in the same places. -/
theorem Resembles.endsBefore
    {other lexeme : Lexeme} {rest : List Char}
    (h : other.Resembles lexeme)
    (hends : lexeme.EndsBefore rest) :
    other.EndsBefore rest := by
  cases h with
  | same => exact hends
  | string => trivial

/-- What is taken away leaves a lexeme as it is, but for the separators between two words
and the blanks in a string. -/
theorem Spelled.exists_tidy
    {lexeme : Lexeme} {w : List Char}
    (h : lexeme.Spelled w)
    (rest : List Char) :
    ∃ (other : Lexeme) (w' : List Char), tidy (w ++ rest) = w' ++ tidy rest ∧
      other.Spelled w' ∧ other.Resembles lexeme := by
  by_cases hstring : ∃ text, lexeme = .string text
  · obtain ⟨text, rfl⟩ := hstring
    obtain ⟨rfl, hquote⟩ := h
    obtain ⟨body, htidy, hbody, hsame⟩ := exists_tidy_literal rest hquote
    refine ⟨.string (String.ofList body), '"' :: (body ++ ['"']), ?_,
      by simp [Spelled, hbody], ?_⟩
    · rw [List.cons_append, List.append_assoc, List.singleton_append,
        tidy_cons_of_ink _ rfl, htidy]
      simp
    · rcases hsame with rfl | hragged
      · rw [String.ofList_toList]
        exact .same _
      · exact .string _ hragged
  · by_cases hwords : lexeme = .conditional .orWhenTrue
    · subst hwords
      obtain ⟨gap, hne, hgap, rfl⟩ := h
      have hblank : ∀ c ∈ gap, isBlank c = true :=
        fun c hc => isBlank_of_isSkipped (hgap c hc)
      have hkept : (isBlank 'i' && endsLine ('f' :: rest)) = false := by
        rfl
      obtain ⟨gap', htidy, hsubset, hnil⟩ := exists_tidy_gap hblank (by decide) hkept
      refine ⟨.conditional .orWhenTrue, ['e', 'l', 's', 'e'] ++ gap' ++ ['i', 'f'], ?_,
        ⟨gap', ?_, ?_, rfl⟩, .same _⟩
      · simp only [List.append_assoc, List.cons_append, List.nil_append]
        rw [tidy_cons_of_ink _ rfl, tidy_cons_of_ink _ rfl, tidy_cons_of_ink _ rfl,
          tidy_cons_of_ink _ rfl, htidy, tidy_cons_of_ink _ rfl]
      · exact fun hempty => hne (hnil hempty)
      · exact fun c hc => hgap c (hsubset hc)
    · have hink := h.ink (fun text heq => hstring ⟨text, heq⟩) hwords
      exact ⟨lexeme, w, tidy_append_of_ink rest hink, h, .same lexeme⟩

/-- Where a lexeme other than `else` ends depends on the next character, and a blank always
ends it. -/
theorem EndsBefore.exists_class
    {lexeme : Lexeme}
    (h : lexeme ≠ .conditional .otherwise) :
    ∃ p : Char → Prop, (∀ rest, lexeme.EndsBefore rest ↔ ∀ c ∈ rest.head?, p c) ∧
      ∀ c, isBlank c = true → p c := by
  have hword : ∀ c, isBlank c = true → isWordChar c = false := by
    intro c hblank
    by_contra hc
    rw [isBlank_of_class (Or.inl (Bool.of_not_eq_false hc))] at hblank
    cases hblank
  have hnumeral : ∀ c, isBlank c = true → isNumeralChar c = false := by
    intro c hblank
    by_contra hc
    rw [isBlank_of_class (Or.inr (Bool.of_not_eq_false hc))] at hblank
    cases hblank
  have hequals : ∀ c, isBlank c = true → c ≠ '=' := by
    rintro c hblank rfl
    cases hblank
  have hnothing : ∃ p : Char → Prop, (∀ rest : List Char, True ↔ ∀ c ∈ rest.head?, p c) ∧
      ∀ c, isBlank c = true → p c :=
    ⟨fun _ => True, by simp, by simp⟩
  cases lexeme with
  | number digits => exact ⟨_, fun _ => Iff.rfl, hnumeral⟩
  | identifier name => exact ⟨_, fun _ => Iff.rfl, hword⟩
  | declare constant => exact ⟨_, fun _ => Iff.rfl, hword⟩
  | conditional branch =>
      cases branch with
      | otherwise => exact absurd rfl h
      | whenTrue => exact ⟨_, fun _ => Iff.rfl, hword⟩
      | orWhenTrue => exact ⟨_, fun _ => Iff.rfl, hword⟩
  | operator op =>
      rcases op with (op | op) | _ | _
      · exact hnothing
      · cases op <;> first | exact hnothing | exact ⟨_, fun _ => Iff.rfl, hequals⟩
      · exact ⟨_, fun _ => Iff.rfl, hequals⟩
      · exact ⟨_, fun _ => Iff.rfl, hequals⟩
  | _ => exact hnothing

theorem EndsBefore.tidy
    {lexeme : Lexeme} {rest : List Char}
    (h : lexeme.EndsBefore rest)
    (hlexeme : lexeme ≠ .conditional .otherwise) :
    lexeme.EndsBefore (tidy rest) := by
  obtain ⟨p, hclass, hblank⟩ := exists_class hlexeme
  rw [hclass] at h ⊢
  intro c hc
  rcases head?_tidy rest c hc with hhead | rfl
  · exact h c hhead
  · exact hblank '\n' rfl

theorem endsBefore_of_tidy
    {lexeme : Lexeme} {rest : List Char}
    (h : lexeme.EndsBefore (Text.tidy rest))
    (hlexeme : lexeme ≠ .conditional .otherwise) :
    lexeme.EndsBefore rest := by
  obtain ⟨p, hclass, hblank⟩ := EndsBefore.exists_class hlexeme
  rw [hclass] at h ⊢
  cases rest with
  | nil => simp
  | cons d rest =>
      intro c hc
      cases hc
      rw [Text.tidy] at h
      split at h
      · rename_i hdropped
        rw [Bool.and_eq_true] at hdropped
        exact hblank d hdropped.1
      · exact h d rfl

/-- If a lexeme is read from what is left, a lexeme is read from the whole text. -/
theorem exists_scan_of_tidy
    {c : Char} {cs : List Char} {lexeme : Lexeme} {n : Nat}
    (h : scan c (tidy cs) = .ok (lexeme, n)) :
    ∃ other, scan c cs = .ok other := by
  by_cases hword : isWordChar c = true
  · exact ⟨_, scan_of_isWordChar hword cs⟩
  · obtain ⟨w, rest, htidy, _, hspelled, hends⟩ := spelled_of_scan h
    by_cases hstring : ∃ text, lexeme = .string text
    · obtain ⟨text, rfl⟩ := hstring
      obtain ⟨heq, _⟩ := hspelled
      obtain ⟨rfl, rfl⟩ := List.cons.inj heq
      -- the closing quote that is found is a quote of the whole text
      have hmem : '"' ∈ cs := by
        refine (tidy_sublist cs).subset ?_
        rw [htidy]
        simp
      obtain ⟨body, more, hcs, hbody⟩ := List.eq_append_cons_of_mem hmem
      have hwritten : (Lexeme.string (String.ofList body)).Spelled
          ('"' :: (body ++ ['"'])) := by
        simp [Spelled, hbody]
      have hmore : (Lexeme.string (String.ofList body)).EndsBefore more := trivial
      have hscan := scan_of_spelled hwritten hmore
      rw [List.append_assoc, List.singleton_append, ← hcs] at hscan
      exact ⟨_, hscan⟩
    · have hwords : lexeme ≠ .conditional .orWhenTrue := by
        rintro rfl
        obtain ⟨gap, _, _, heq⟩ := hspelled
        cases heq
        exact hword rfl
      have helse : lexeme ≠ .conditional .otherwise := by
        rintro rfl
        cases hspelled
        exact hword rfl
      have hink := hspelled.ink (fun text heq => hstring ⟨text, heq⟩) hwords
      obtain ⟨more, rfl, rfl⟩ :=
        exists_of_tidy_eq_append htidy fun d hd => hink d (List.mem_cons_of_mem c hd)
      exact ⟨_, scan_of_spelled hspelled (endsBefore_of_tidy hends helse)⟩

/-- A blank starts no lexeme. -/
theorem scan_blank
    {c : Char} (cs : List Char)
    (h : isBlank c = true) :
    scan c cs = .error (.unexpectedCharacter c) := by
  have hne : ∀ {d : Char}, isBlank d = false → c ≠ d := by
    rintro d hd rfl
    cases h.symm.trans hd
  have hnumeral : isNumeralChar c = false := by
    by_contra hc
    cases h.symm.trans (isBlank_of_class (Or.inr (Bool.of_not_eq_false hc)))
  have hword : isWordChar c = false := by
    by_contra hc
    cases h.symm.trans (isBlank_of_class (Or.inl (Bool.of_not_eq_false hc)))
  have hoperator : Operator.scan? c cs = none := by
    cases hop : Operator.scan? c cs with
    | none => rfl
    | some found =>
        obtain ⟨op, n⟩ := found
        obtain ⟨w, rest, _, _, hsymbol, _⟩ := Operator.spelled_of_scan? hop
        have hspelled : (Lexeme.operator op).Spelled (c :: w) := hsymbol.symm
        have hink := hspelled.ink nofun nofun c List.mem_cons_self
        cases h.symm.trans hink
  unfold scan
  rw [if_neg (hne rfl), if_neg (hne rfl), if_neg (hne rfl), if_neg (hne rfl), hnumeral,
    hword, hoperator]
  rfl

/-- A leading run of a class is found where the first character is that does not belong
to it. -/
theorem leading_inj
    {p : Char → Bool} {u v cs ds : List Char} {c d : Char}
    (h : u ++ c :: cs = v ++ d :: ds)
    (hu : ∀ e ∈ u, p e = true)
    (hv : ∀ e ∈ v, p e = true)
    (hc : p c = false)
    (hd : p d = false) :
    u = v ∧ c = d ∧ cs = ds := by
  have hruns := congrArg (List.takeWhile p) h
  rw [takeWhile_append_of_head hu (by simpa using hc),
    takeWhile_append_of_head hv (by simpa using hd)] at hruns
  subst hruns
  obtain ⟨hcd, hrest⟩ := List.cons.inj (List.append_cancel_left h)
  exact ⟨rfl, hcd, hrest⟩

/-- Where words have come together, only separators were between them, or a blank that is
no separator was taken away. -/
theorem goesOnWithIf_of_tidy
    {rest : List Char}
    (h : GoesOnWithIf (tidy rest)) :
    GoesOnWithIf rest ∨
      ∃ gap c cs, rest = gap ++ c :: cs ∧
        (∀ d ∈ gap, Token.isSkipped d = true) ∧ isBlank c = true ∧
        Token.isSkipped c = false ∧ endsLine cs = true := by
  obtain ⟨left, after, hne, hleft, htidy, hafter⟩ := h
  obtain ⟨gap, more, rfl, _, _, hgap, hmore⟩ := exists_leading Token.isSkipped rest
  cases more with
  | nil =>
      have hmem : 'i' ∈ gap ++ [] := by
        refine (tidy_sublist _).subset ?_
        rw [htidy]
        simp
      rw [List.append_nil] at hmem
      cases hgap _ hmem
  | cons c cs =>
      have hskip : Token.isSkipped c = false := hmore c rfl
      by_cases hdropped : (isBlank c && endsLine cs) = true
      · rw [Bool.and_eq_true] at hdropped
        exact Or.inr ⟨gap, c, cs, rfl, hgap, hdropped.1, hskip, hdropped.2⟩
      · have hnewline : c ≠ '\n' := by
          rintro rfl
          cases hskip
        obtain ⟨gap', hgap', hsubset, hnil⟩ :=
          exists_tidy_gap (fun d hd => isBlank_of_isSkipped (hgap d hd)) hnewline
            (Bool.of_not_eq_true hdropped)
        rw [hgap'] at htidy
        obtain ⟨rfl, rfl, hword⟩ :=
          leading_inj htidy (fun d hd => hgap d (hsubset hd)) hleft hskip rfl
        obtain ⟨more, rfl, rfl⟩ :=
          exists_of_tidy_eq_append (w := ['f']) hword (List.forall_mem_singleton.mpr rfl)
        refine Or.inl ⟨gap, more, ?_, hgap, rfl, ?_⟩
        · rintro rfl
          exact hne (List.subset_nil.mp hsubset)
        · intro d hd
          by_contra hclass
          have hd' := Bool.of_not_eq_false hclass
          cases more with
          | nil => cases hd
          | cons e more =>
              cases hd
              rw [tidy_cons_of_ink more (isBlank_of_class (Or.inl hd'))] at hafter
              rw [hafter d rfl] at hd'
              cases hd'

end Lexeme

namespace TokenStream

open Lexeme

/-- The text is refused for a blank that is no separator and ends a line. -/
def RefusedForBlank (pos : Pos) (cs : List Char) (fault : Fault) : Prop :=
  ∃ before c after, cs = before ++ c :: after ∧ isBlank c = true ∧
    Token.isSkipped c = false ∧ endsLine after = true ∧
    fault = ⟨.unexpectedCharacter c, pos.after before⟩

theorem RefusedForBlank.append
    {pos : Pos} {cs : List Char} {fault : Fault} (w : List Char)
    (h : RefusedForBlank (pos.after w) cs fault) :
    RefusedForBlank pos (w ++ cs) fault := by
  obtain ⟨before, c, after, rfl, hblank, hskip, hends, rfl⟩ := h
  refine ⟨w ++ before, c, after, by simp, hblank, hskip, hends, ?_⟩
  rw [Pos.after_append]

/-- The lexemes of the first text resemble those of the second one, or both texts
are refused. -/
inductive Agree : Except Fault TokenStream → Except Fault TokenStream → Prop
  | ok
      {first second : TokenStream}
      (h : List.Forall₂ Resembles (first.tokens.map Token.lexeme)
        (second.tokens.map Token.lexeme)) :
      Agree (.ok first) (.ok second)
  | error
      {first second : Fault}
      (hfirst : first.cause.kind = .lexical)
      (hsecond : second.cause.kind = .lexical) :
      Agree (.error first) (.error second)

theorem Agree.cons
    {first second : Except Fault TokenStream} {lexeme lexeme' : Lexeme} (pos pos' : Pos)
    (hlexeme : lexeme.Resembles lexeme')
    (h : Agree first second) :
    Agree (first.map (cons ⟨lexeme, pos⟩)) (second.map (cons ⟨lexeme', pos'⟩)) := by
  cases h with
  | ok h => exact .ok (.cons hlexeme h)
  | error hfirst hsecond => exact .error hfirst hsecond

/-- A blank that is no separator is refused, also after separators. -/
theorem read_blank
    (pos : Pos) {gap : List Char} {c : Char} (cs : List Char)
    (hgap : ∀ d ∈ gap, Token.isSkipped d = true)
    (hblank : isBlank c = true)
    (hskip : Token.isSkipped c = false) :
    read pos (gap ++ c :: cs) = .error ⟨.unexpectedCharacter c, pos.after gap⟩ := by
  rw [read_separators pos _ hgap, read, hskip, if_neg Bool.false_ne_true,
    scan_blank cs hblank]

/-- The word `else` ends where it ended, unless a blank that is no separator has been
taken away. -/
theorem endsBefore_tidy_or_refused
    (pos : Pos) {lexeme : Lexeme} {rest : List Char}
    (h : lexeme.EndsBefore rest) :
    lexeme.EndsBefore (tidy rest) ∨ ∃ fault, read pos rest = .error fault ∧
      RefusedForBlank pos rest fault := by
  by_cases helse : lexeme = .conditional .otherwise
  · subst helse
    obtain ⟨hword, hif⟩ := h
    by_cases hgoes : GoesOnWithIf (tidy rest)
    · rcases goesOnWithIf_of_tidy hgoes
        with hcontra | ⟨gap, c, cs, rfl, hgap, hblank, hskip, hends⟩
      · exact absurd hcontra hif
      · exact Or.inr ⟨_, read_blank pos cs hgap hblank hskip, gap, c, cs, rfl,
          hblank, hskip, hends, rfl⟩
    · have hidentifier : (Lexeme.identifier "else").EndsBefore rest := hword
      exact Or.inl ⟨hidentifier.tidy nofun, hgoes⟩
  · exact Or.inl (h.tidy helse)

/-- Splitting a text and splitting what is left of it agree, if they agree after the
first lexeme. -/
theorem agree_read_lexeme
    (pos pos' : Pos) {lexeme : Lexeme} {w rest : List Char}
    (hspelled : lexeme.Spelled w)
    (hends : lexeme.EndsBefore rest)
    (hrest : ∀ pos',
      Agree (read pos' (tidy rest)) (read (pos.after w) rest) ∨
        ∃ fault, read (pos.after w) rest = .error fault ∧
          RefusedForBlank (pos.after w) rest fault) :
    Agree (read pos' (tidy (w ++ rest))) (read pos (w ++ rest)) ∨
      ∃ fault, read pos (w ++ rest) = .error fault ∧
        RefusedForBlank pos (w ++ rest) fault := by
  obtain ⟨other, w', htidy, hspelled', hresembles⟩ := hspelled.exists_tidy rest
  have hread := read_spelled pos hspelled hends
  have hrefused : (∃ fault, read (pos.after w) rest = .error fault ∧
      RefusedForBlank (pos.after w) rest fault) →
      ∃ fault, read pos (w ++ rest) = .error fault ∧
        RefusedForBlank pos (w ++ rest) fault := by
    rintro ⟨fault, hfault, hblank⟩
    rw [hfault] at hread
    exact ⟨fault, hread, hblank.append w⟩
  rcases endsBefore_tidy_or_refused (pos.after w) hends with hends' | hfault
  · rcases hrest (pos'.after w') with hagree | hfault
    · rw [htidy, read_spelled pos' hspelled' (hresembles.endsBefore hends'), hread]
      exact Or.inl (hagree.cons pos' pos hresembles)
    · exact Or.inr (hrefused hfault)
  · exact Or.inr (hrefused hfault)

/-- Splitting a text and splitting what is left of it give the same lexemes, or both fail,
unless the text fails at a blank that is taken away. -/
theorem agree_read_tidy
    (pos pos' : Pos) (cs : List Char) :
    Agree (read pos' (tidy cs)) (read pos cs) ∨ ∃ fault, read pos cs = .error fault ∧
      RefusedForBlank pos cs fault := by
  induction pos, cs using read.induct generalizing pos' with
  | case1 pos =>
      rw [tidy, read, read]
      exact Or.inl (.ok .nil)
  | case2 pos c cs hskip ih =>
      have hleft : ∃ pos'', read pos' (tidy (c :: cs)) = read pos'' (tidy cs) := by
        rw [tidy]
        split
        · exact ⟨pos', rfl⟩
        · exact ⟨pos'.next c, by rw [read, if_pos hskip]⟩
      obtain ⟨pos'', hleft⟩ := hleft
      rw [hleft, read, if_pos hskip]
      rcases ih pos'' with hagree | ⟨fault, hfault, hblank⟩
      · exact Or.inl hagree
      · exact Or.inr ⟨fault, hfault, hblank.append [c]⟩
  | case3 pos c cs hskip cause hscan =>
      rw [read, if_neg hskip, hscan]
      by_cases hdropped : (isBlank c && endsLine cs) = true
      · rw [Bool.and_eq_true] at hdropped
        rw [scan_blank cs hdropped.1] at hscan
        cases hscan
        exact Or.inr ⟨_, rfl, [], c, cs, rfl, hdropped.1,
          Bool.of_not_eq_true hskip, hdropped.2, rfl⟩
      · rw [tidy, if_neg hdropped, read, if_neg hskip]
        cases hleft : scan c (tidy cs) with
        | error other =>
            exact Or.inl (.error (kind_of_scan_error hleft) (kind_of_scan_error hscan))
        | ok found =>
            obtain ⟨other, hother⟩ := exists_scan_of_tidy hleft
            cases hscan.symm.trans hother
  | case4 pos c cs hskip lexeme n hscan fault hread ih =>
      obtain ⟨w, rest, rfl, rfl, hspelled, hends⟩ := spelled_of_scan hscan
      rw [List.take_left, List.drop_left] at ih
      exact agree_read_lexeme pos pos' hspelled hends ih
  | case5 pos c cs hskip lexeme n hscan stream hread ih =>
      obtain ⟨w, rest, rfl, rfl, hspelled, hends⟩ := spelled_of_scan hscan
      rw [List.take_left, List.drop_left] at ih
      exact agree_read_lexeme pos pos' hspelled hends ih

end TokenStream
end LetLang
