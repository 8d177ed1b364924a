import LetLang.Proofs.Token.Spelling
import Mathlib.Data.List.Chain

/-!
# Texts with separators between the lexemes

Separators around a lexeme change nothing but positions, except that the words `else` and
`if` are one lexeme where only separators come between them. `Lexeme.Apart` says that two
lexemes are not these. `Lexeme.Spaced` says that a text writes some lexemes with separators
between any two of them, and splitting such a text gives these lexemes back, if each of
them is apart from the next. Splitting a text that is cut at a separator is splitting its
two parts, if they are apart where they meet.
-/

namespace LetLang
namespace Lexeme

theorem isSkipped_cases
    {c : Char}
    (hc : Token.isSkipped c = true) :
    c = ' ' ∨ c = '\t' ∨ c = '\r' ∨ c = '\n' := by
  simp only [Token.isSkipped, Bool.or_eq_true, beq_iff_eq] at hc
  rcases hc with ((h | h) | h) | h <;> simp [h]

/-- Every lexeme but `else` ends before a separator. -/
theorem endsBefore_of_separator
    {lexeme : Lexeme} {rest : List Char}
    (hlexeme : lexeme ≠ .conditional .otherwise)
    (hrest : ∀ c ∈ rest.head?, Token.isSkipped c = true) :
    lexeme.EndsBefore rest := by
  have hnumeral : ∀ c ∈ rest.head?, isNumeralChar c = false := by
    intro c hc
    rcases isSkipped_cases (hrest c hc) with rfl | rfl | rfl | rfl <;> rfl
  have hword : ∀ c ∈ rest.head?, isWordChar c = false := by
    intro c hc
    exact isWordChar_of_isSkipped (hrest c hc)
  have hequals : ∀ c ∈ rest.head?, c ≠ '=' := by
    intro c hc
    rcases isSkipped_cases (hrest c hc) with rfl | rfl | rfl | rfl <;> decide
  unfold EndsBefore
  split
  all_goals first | assumption | exact absurd rfl hlexeme | trivial

theorem EndsBefore.append
    {lexeme : Lexeme} {rest cs : List Char}
    (h : lexeme.EndsBefore rest)
    (hlexeme : lexeme ≠ .conditional .otherwise)
    (hcs : ∀ c ∈ cs.head?, Token.isSkipped c = true) :
    lexeme.EndsBefore (rest ++ cs) := by
  cases rest with
  | nil => exact endsBefore_of_separator hlexeme hcs
  | cons d ds =>
      cases lexeme with
      | conditional branch =>
          cases branch with
          | otherwise => exact absurd rfl hlexeme
          | whenTrue => exact h
          | orWhenTrue => exact h
      | operator op =>
          rcases op with (op | op) | _ | _
          · exact trivial
          · cases op <;> exact h
          · exact h
          · exact h
      | _ => exact h

theorem Spelled.exists_cons
    {lexeme : Lexeme} {w : List Char}
    (h : lexeme.Spelled w) :
    ∃ c cs, w = c :: cs ∧ Token.isSkipped c = false := by
  cases lexeme with
  | number digits =>
      obtain ⟨_, hclass, _, d, hd, _⟩ := h
      cases w with
      | nil => simp at hd
      | cons c cs =>
          refine ⟨c, cs, rfl, ?_⟩
          cases hskip : Token.isSkipped c with
          | false => rfl
          | true =>
              have hc := hclass c List.mem_cons_self
              rcases isSkipped_cases hskip with rfl | rfl | rfl | rfl <;> cases hc
  | identifier name =>
      obtain ⟨_, ⟨hne, hclass⟩, _⟩ := h
      cases w with
      | nil => exact absurd rfl hne
      | cons c cs =>
          refine ⟨c, cs, rfl, ?_⟩
          cases hskip : Token.isSkipped c with
          | false => rfl
          | true =>
              have hc := hclass c List.mem_cons_self
              rw [isWordChar_of_isSkipped hskip] at hc
              cases hc
  | string text => exact ⟨_, _, h.1, rfl⟩
  | operator op =>
      rcases op with (op | op) | _ | _
      · cases op <;> exact ⟨_, _, h, rfl⟩
      · cases op <;> exact ⟨_, _, h, rfl⟩
      · exact ⟨_, _, h, rfl⟩
      · exact ⟨_, _, h, rfl⟩
  | declare constant => cases constant <;> exact ⟨_, _, h, rfl⟩
  | conditional branch =>
      cases branch with
      | orWhenTrue =>
          obtain ⟨gap, _, _, rfl⟩ := h
          exact ⟨_, _, rfl, rfl⟩
      | whenTrue => exact ⟨_, _, h, rfl⟩
      | otherwise => exact ⟨_, _, h, rfl⟩
  | semicolon => exact ⟨_, _, h, rfl⟩
  | openParen => exact ⟨_, _, h, rfl⟩
  | closeParen => exact ⟨_, _, h, rfl⟩

end Lexeme

namespace TokenStream

/-- A token in front of the others. -/
def cons (t : Token) (stream : TokenStream) : TokenStream :=
  ⟨t :: stream.tokens, stream.finish⟩

/-- The tokens of a text in front of those of the text that follows it. -/
def append (first second : TokenStream) : TokenStream :=
  ⟨first.tokens ++ second.tokens, second.finish⟩

theorem read_separators
    (pos : Pos) {gap : List Char} (cs : List Char)
    (hgap : ∀ c ∈ gap, Token.isSkipped c = true) :
    read pos (gap ++ cs) = read (pos.after gap) cs := by
  induction gap generalizing pos with
  | nil => rfl
  | cons c gap ih =>
      have hc := hgap c List.mem_cons_self
      rw [List.cons_append, read, if_pos hc,
        ih (pos.next c) (fun d hd => hgap d (List.mem_cons_of_mem c hd)), Pos.after_cons]

theorem read_spelled
    (pos : Pos) {lexeme : Lexeme} {w rest : List Char}
    (hspelled : lexeme.Spelled w)
    (hends : lexeme.EndsBefore rest) :
    read pos (w ++ rest) = (read (pos.after w) rest).map (cons ⟨lexeme, pos⟩) := by
  obtain ⟨c, cs, rfl, hskip⟩ := hspelled.exists_cons
  rw [List.cons_append, read, hskip, if_neg Bool.false_ne_true,
    Lexeme.scan_of_spelled hspelled hends]
  simp only [List.take_left, List.drop_left]
  cases read (pos.after (c :: cs)) rest <;> rfl

/-- The first token is written after some separators, and ends there. -/
theorem exists_spelled_of_read
    {pos : Pos} {cs : List Char} {stream : TokenStream} {t : Token} {ts : List Token}
    (h : read pos cs = .ok stream)
    (hstream : stream.tokens = t :: ts) :
    ∃ gap w rest, cs = gap ++ (w ++ rest) ∧
      (∀ c ∈ gap, Token.isSkipped c = true) ∧ t.lexeme.Spelled w ∧
      t.lexeme.EndsBefore rest := by
  fun_induction read pos cs with
  | case1 pos =>
      cases h
      cases hstream
  | case2 pos c cs hskip ih =>
      obtain ⟨gap, w, rest, rfl, hgap, hspelled, hends⟩ := ih h
      exact ⟨c :: gap, w, rest, rfl, List.forall_mem_cons.mpr ⟨hskip, hgap⟩,
        hspelled, hends⟩
  | case3 pos c cs hskip cause hscan => cases h
  | case4 pos c cs hskip lexeme n hscan fault hread ih => cases h
  | case5 pos c cs hskip lexeme n hscan rest hread ih =>
      cases h
      cases hstream
      obtain ⟨w, after, rfl, _, hspelled, hends⟩ := Lexeme.spelled_of_scan hscan
      exact ⟨[], c :: w, after, rfl, List.forall_mem_nil _, hspelled, hends⟩

/-- Where a word has ended, the text goes on with the word `if` exactly if this is the
next token. -/
theorem goesOnWithIf_iff_of_read
    {pos : Pos} {cs : List Char} {stream : TokenStream}
    (h : read pos cs = .ok stream)
    (hword : ∀ c ∈ cs.head?, Lexeme.isWordChar c = false) :
    Lexeme.GoesOnWithIf cs ↔
      ∃ t ∈ stream.tokens.head?, t.lexeme = .conditional .whenTrue := by
  constructor
  · rintro ⟨gap, after, _, hgap, rfl, hafter⟩
    have hif : (Lexeme.conditional .whenTrue).Spelled ['i', 'f'] := rfl
    have hread := read_spelled (pos.after gap) hif hafter
    rw [read_separators pos _ hgap] at h
    rw [List.cons_append, List.cons_append, List.nil_append, h] at hread
    cases hrest : read ((pos.after gap).after ['i', 'f']) after with
    | error fault =>
        rw [hrest] at hread
        cases hread
    | ok rest =>
        rw [hrest] at hread
        cases hread
        exact ⟨_, rfl, rfl⟩
  · rintro ⟨t, ht, hlexeme⟩
    obtain ⟨ts, hstream⟩ := List.head?_eq_some_iff.mp ht
    obtain ⟨gap, w, rest, rfl, hgap, hspelled, hends⟩ := exists_spelled_of_read h hstream
    rw [hlexeme] at hspelled hends
    obtain rfl : w = ['i', 'f'] := hspelled
    refine ⟨gap, rest, ?_, hgap, rfl, hends⟩
    rintro rfl
    cases hword 'i' rfl

end TokenStream

namespace Lexeme

/-- The one lexeme may come before the other, with nothing but separators between them. -/
def Apart (first second : Lexeme) : Prop :=
  first = .conditional .otherwise → second ≠ .conditional .whenTrue

theorem isChain_apart_of_not_mem
    {ws : List Lexeme}
    (h : .conditional .otherwise ∉ ws) :
    ws.IsChain Apart := by
  refine List.isChain_iff_forall_rel_of_append_cons_cons.mpr ?_
  rintro first second before after rfl helse
  rw [helse] at h
  simp at h

theorem endsBefore_nil
    (lexeme : Lexeme) :
    lexeme.EndsBefore [] := by
  by_cases helse : lexeme = .conditional .otherwise
  · subst helse
    refine ⟨by simp, ?_⟩
    rintro ⟨gap, after, _, _, heq, _⟩
    simp at heq
  · exact endsBefore_of_separator helse (by simp)

/-- Where a lexeme ends, it also ends if a text is added that begins with a separator,
unless this makes the next token one that belongs to it. -/
theorem EndsBefore.append_of_apart
    {pos : Pos} {lexeme : Lexeme} {rest cs : List Char} {stream : TokenStream}
    (h : lexeme.EndsBefore rest)
    (hcs : ∀ c ∈ cs.head?, Token.isSkipped c = true)
    (hread : TokenStream.read pos (rest ++ cs) = .ok stream)
    (hapart : ∀ t ∈ stream.tokens.head?, lexeme.Apart t.lexeme) :
    lexeme.EndsBefore (rest ++ cs) := by
  by_cases helse : lexeme = .conditional .otherwise
  · subst helse
    -- like any other word, `else` ends before a separator
    have hidentifier : (Lexeme.identifier "else").EndsBefore rest := h.1
    have hword := hidentifier.append (by simp) hcs
    refine ⟨hword, fun hgoes => ?_⟩
    obtain ⟨t, ht, hif⟩ := (TokenStream.goesOnWithIf_iff_of_read hread hword).mp hgoes
    exact hapart t ht rfl hif
  · exact h.append helse hcs

/-- Where a lexeme ends, the next token is apart from it. -/
theorem EndsBefore.apart
    {pos : Pos} {lexeme : Lexeme} {rest : List Char} {stream : TokenStream}
    (h : lexeme.EndsBefore rest)
    (hread : TokenStream.read pos rest = .ok stream) :
    ∀ t ∈ stream.tokens.head?, lexeme.Apart t.lexeme := by
  rintro t ht rfl hif
  exact h.2 ((TokenStream.goesOnWithIf_iff_of_read hread h.1).mpr ⟨t, ht, hif⟩)

end Lexeme

namespace TokenStream

/-- Splitting a text that is cut at a separator is splitting its two parts, if they are
apart where they meet. -/
theorem read_append
    {pos : Pos} {cs ds : List Char} {first second : TokenStream}
    (hfirst : read pos cs = .ok first)
    (hsecond : read first.finish ds = .ok second)
    (hds : ∀ c ∈ ds.head?, Token.isSkipped c = true)
    (hapart : ∀ t ∈ first.tokens.getLast?, ∀ u ∈ second.tokens.head?,
      t.lexeme.Apart u.lexeme) :
    read pos (cs ++ ds) = .ok (first.append second) := by
  fun_induction read pos cs generalizing first with
  | case1 pos =>
      cases hfirst
      exact hsecond
  | case2 pos c cs hskip ih =>
      rw [List.cons_append, read, if_pos hskip]
      exact ih hfirst hsecond hapart
  | case3 pos c cs hskip cause hscan => cases hfirst
  | case4 pos c cs hskip lexeme n hscan fault hread ih => cases hfirst
  | case5 pos c cs hskip lexeme n hscan rest hread ih =>
      cases hfirst
      obtain ⟨w, after, rfl, rfl, hspelled, hends⟩ := Lexeme.spelled_of_scan hscan
      rw [List.take_left, List.drop_left] at hread ih
      have htail : read (pos.after (c :: w)) (after ++ ds) = .ok (rest.append second) := by
        refine ih hread hsecond fun t ht => hapart t ?_
        rw [List.getLast?_cons, ht]
        rfl
      have hnext : ∀ u ∈ (rest.append second).tokens.head?, lexeme.Apart u.lexeme := by
        intro u hu
        cases htokens : rest.tokens with
        | nil =>
            rw [append, htokens] at hu
            exact hapart ⟨lexeme, pos⟩ (by rw [htokens]; rfl) u hu
        | cons t ts =>
            rw [append, htokens] at hu
            obtain rfl : t = u := Option.some.inj hu
            exact hends.apart hread t (by rw [htokens]; rfl)
      have hends' := hends.append_of_apart hds htail hnext
      rw [← List.cons_append, List.append_assoc, read_spelled pos hspelled hends', htail]
      rfl

theorem read_newline
    {pos : Pos} {cs ds : List Char} {first second : TokenStream}
    (hfirst : read pos cs = .ok first)
    (hsecond : read (first.finish.next '\n') ds = .ok second)
    (hapart : ∀ t ∈ first.tokens.getLast?, ∀ u ∈ second.tokens.head?,
      t.lexeme.Apart u.lexeme) :
    read pos (cs ++ '\n' :: ds) = .ok (first.append second) := by
  have hnewline : Token.isSkipped '\n' = true := rfl
  refine read_append hfirst ?_ (by simp [hnewline]) hapart
  rw [read, if_pos hnewline, hsecond]

end TokenStream

namespace Lexeme

/-- The text writes the lexemes, with separators between any two of them. -/
inductive Spaced : List Lexeme → List Char → Prop
  | blank
      {gap : List Char}
      (hgap : ∀ c ∈ gap, Token.isSkipped c = true) :
      Spaced [] gap
  | cons
      {lexeme : Lexeme} {ws : List Lexeme} {gap w rest : List Char}
      (hgap : ∀ c ∈ gap, Token.isSkipped c = true)
      (hspelled : lexeme.Spelled w)
      (hseparator : ∀ c ∈ rest.head?, Token.isSkipped c = true)
      (hrest : Spaced ws rest) :
      Spaced (lexeme :: ws) (gap ++ (w ++ rest))

/-- Splitting a text gives back the lexemes it was written from, if each of them is apart
from the next. -/
theorem Spaced.exists_read
    {ws : List Lexeme} {cs : List Char}
    (h : Spaced ws cs)
    (hapart : ws.IsChain Apart)
    (pos : Pos) :
    ∃ stream, TokenStream.read pos cs = .ok stream ∧
      stream.tokens.map Token.lexeme = ws := by
  induction h generalizing pos with
  | blank hgap =>
      rename_i gap
      have hread := TokenStream.read_separators pos [] hgap
      rw [List.append_nil] at hread
      refine ⟨⟨[], pos.after gap⟩, ?_, rfl⟩
      rw [hread, TokenStream.read]
  | cons hgap hspelled hseparator hrest ih =>
      rename_i lexeme ws gap w rest
      obtain ⟨hnext, htail⟩ := List.isChain_cons.mp hapart
      obtain ⟨stream, hread, hlexemes⟩ := ih htail ((pos.after gap).after w)
      have hends : lexeme.EndsBefore rest := by
        refine (endsBefore_nil lexeme).append_of_apart hseparator hread
          fun t ht => hnext t.lexeme ?_
        rw [← hlexemes, List.head?_map, ht]
        rfl
      refine ⟨stream.cons ⟨lexeme, pos.after gap⟩, ?_, ?_⟩
      · rw [TokenStream.read_separators pos _ hgap,
          TokenStream.read_spelled _ hspelled hends, hread]
        rfl
      · simp [TokenStream.cons, hlexemes]

/-- A spaced text that does not begin with a lexeme. -/
def Detached (ws : List Lexeme) (cs : List Char) : Prop :=
  Spaced ws cs ∧ ∀ c ∈ cs.head?, Token.isSkipped c = true

theorem Detached.nil :
    Detached [] [] := by
  exact ⟨.blank (by simp), by simp⟩

theorem Detached.cons
    {lexeme : Lexeme} {ws : List Lexeme} {w rest : List Char}
    (hspelled : lexeme.Spelled w)
    (hrest : Detached ws rest) :
    Detached (lexeme :: ws) (' ' :: (w ++ rest)) := by
  have hspace : ∀ c ∈ [' '], Token.isSkipped c = true := List.all_eq_true.mp rfl
  refine ⟨.cons hspace hspelled hrest.2 hrest.1, ?_⟩
  intro c hc
  obtain rfl := Option.some.inj hc
  rfl

/-- Lexemes that can be written can be written with separators between them. -/
theorem exists_spaced
    {ws : List Lexeme}
    (hws : ∀ lexeme ∈ ws, ∃ w, lexeme.Spelled w) :
    ∃ cs, Spaced ws cs := by
  suffices h : ∃ cs, Detached ws cs by
    obtain ⟨cs, hcs, _⟩ := h
    exact ⟨cs, hcs⟩
  induction ws with
  | nil => exact ⟨[], .nil⟩
  | cons lexeme ws ih =>
      obtain ⟨w, hw⟩ := hws lexeme List.mem_cons_self
      obtain ⟨cs, hcs⟩ :=
        ih (fun other hother => hws other (List.mem_cons_of_mem lexeme hother))
      exact ⟨' ' :: (w ++ cs), .cons hw hcs⟩

end Lexeme
end LetLang
