import LetLang.Proofs.Token.Coverage
import LetLang.Proofs.Tree.Placement

/-!
# Which tokens can follow each other

No text has the words `else` and `if` as two tokens in a row, since both would be one. This
is the only way in which tokens of a text depend on each other: written out again with any
separators between them, they are the tokens of the text that this makes. It also tells
when two texts can be put one below the other: the tokens of the whole are those of the two
parts, unless the upper part ends with `else` and the lower one begins with `if`.
-/

namespace LetLang
namespace Lexeme

/-- The lexeme as a text: a string between its quotes, and any other lexeme by the text
that it has. -/
def written : Lexeme → List Char
  | string text => '"' :: (text.toList ++ ['"'])
  | other => other.text.toList

/-- What can be spelled at all is spelled as it is written. -/
theorem Spelled.spelled_written
    {lexeme : Lexeme} {w : List Char}
    (h : lexeme.Spelled w) :
    lexeme.Spelled lexeme.written := by
  cases lexeme with
  | number digits =>
      obtain ⟨rfl, hnumeral⟩ := h
      exact ⟨rfl, hnumeral⟩
  | identifier name =>
      obtain ⟨rfl, hword⟩ := h
      exact ⟨rfl, hword⟩
  | string text => exact ⟨rfl, h.2⟩
  | conditional branch =>
      cases branch with
      | orWhenTrue =>
          have hspace : ∀ c ∈ [' '], Token.isSkipped c = true := List.all_eq_true.mp rfl
          exact ⟨[' '], List.cons_ne_nil _ _, hspace, rfl⟩
      | whenTrue => rfl
      | otherwise => rfl
  | _ => rfl

/-- The text is the lexemes in order, with separators between each of them and the next. -/
inductive WrittenOut : List Lexeme → List Char → Prop
  | nil :
      WrittenOut [] []
  | last
      (lexeme : Lexeme) :
      WrittenOut [lexeme] lexeme.written
  | cons
      {next : Lexeme} {ws : List Lexeme} {gap rest : List Char} (lexeme : Lexeme)
      (hne : gap ≠ [])
      (hgap : Token.IsGap gap)
      (hrest : WrittenOut (next :: ws) rest) :
      WrittenOut (lexeme :: next :: ws) (lexeme.written ++ (gap ++ rest))

theorem Spaced.after_gap
    {ws : List Lexeme} {gap cs : List Char}
    (h : Spaced ws cs)
    (hgap : Token.IsGap gap) :
    Spaced ws (gap ++ cs) := by
  cases h with
  | blank hblank => exact .blank (List.forall_mem_append.mpr ⟨hgap, hblank⟩)
  | cons hgap' hspelled hseparator hrest =>
      rw [← List.append_assoc]
      exact .cons (List.forall_mem_append.mpr ⟨hgap, hgap'⟩) hspelled hseparator hrest

/-- Lexemes that are written out have separators between them. -/
theorem WrittenOut.spaced
    {ws : List Lexeme} {cs : List Char}
    (h : WrittenOut ws cs)
    (hws : ∀ lexeme ∈ ws, ∃ w, lexeme.Spelled w) :
    Spaced ws cs := by
  have hnothing : Token.IsGap [] := List.forall_mem_nil _
  induction h with
  | nil => exact .blank hnothing
  | last lexeme =>
      obtain ⟨w, hw⟩ := hws lexeme List.mem_cons_self
      have hspaced := Spaced.cons hnothing hw.spelled_written (by simp) (.blank hnothing)
      rwa [List.append_nil] at hspaced
  | cons lexeme hne hgap hrest ih =>
      rename_i next ws gap rest
      obtain ⟨⟨w, hw⟩, hws⟩ := List.forall_mem_cons.mp hws
      have hseparator : ∀ c ∈ (gap ++ rest).head?, Token.isSkipped c = true := by
        intro c hc
        rw [List.head?_append_of_ne_nil gap hne] at hc
        exact hgap c (List.mem_of_mem_head? hc)
      have hspaced :=
        Spaced.cons hnothing hw.spelled_written hseparator ((ih hws).after_gap hgap)
      exact hspaced

end Lexeme

/-- Each token of a text is apart from the next one. -/
theorem TokenStream.isChain_apart
    {pos : Pos} {cs : List Char} {stream : TokenStream}
    (h : read pos cs = .ok stream) :
    (stream.tokens.map Token.lexeme).IsChain Lexeme.Apart := by
  fun_induction read pos cs generalizing stream with
  | case1 pos =>
      cases h
      exact .nil
  | case2 pos c cs hskip ih => exact ih h
  | case3 pos c cs hskip cause hscan => cases h
  | case4 pos c cs hskip lexeme n hscan fault hread ih => cases h
  | case5 pos c cs hskip lexeme n hscan rest hread ih =>
      cases h
      obtain ⟨w, after, rfl, rfl, _, hends⟩ := Lexeme.spelled_of_scan hscan
      rw [List.take_left, List.drop_left] at hread ih
      refine (ih hread).cons ?_
      intro next hnext
      rw [List.head?_map] at hnext
      obtain ⟨t, ht, rfl⟩ := Option.map_eq_some_iff.mp hnext
      exact hends.apart hread t ht

/-- Lexemes that can be spelled are those of a text, if each of them is apart from
the next. -/
theorem exists_tokenize
    {ws : List Lexeme}
    (hws : ∀ lexeme ∈ ws, ∃ w, lexeme.Spelled w)
    (hapart : ws.IsChain Lexeme.Apart) :
    ∃ text stream, tokenize text = .ok stream ∧ stream.tokens.map Token.lexeme = ws := by
  obtain ⟨cs, hcs⟩ := Lexeme.exists_spaced hws
  obtain ⟨stream, hread, hlexemes⟩ := hcs.exists_read hapart .start
  refine ⟨String.ofList cs, stream, ?_, hlexemes⟩
  rw [tokenize, String.toList_ofList, hread]

/-- The tokens of a text, written out again with any separators between them, are
tokens of the same kinds and texts. In no text the word `else` comes directly before
the word `if`. -/
theorem tokenize_writtenOut
    {source : String} {stream : TokenStream}
    (h : tokenize source = .ok stream) :
    (stream.tokens.map Token.lexeme).IsChain Lexeme.Apart ∧
      ∀ text : String, Lexeme.WrittenOut (stream.tokens.map Token.lexeme) text.toList →
        ∃ again, tokenize text = .ok again ∧
          again.tokens.map Token.lexeme = stream.tokens.map Token.lexeme := by
  have hapart := TokenStream.isChain_apart h
  refine ⟨hapart, ?_⟩
  intro text htext
  have hspelled : ∀ lexeme ∈ stream.tokens.map Token.lexeme, ∃ w, lexeme.Spelled w := by
    intro lexeme hlexeme
    obtain ⟨t, ht, rfl⟩ := List.mem_map.mp hlexeme
    exact TokenStream.spelled_of_mem_read h ht
  exact (htext.spaced hspelled).exists_read hapart .start

/-- The words `else` and `if` stay one token, and a string stays a string. -/
theorem tokenize_writtenOut_else_if :
    ∃ again, tokenize "x\n<= !\t\"else\"\r\n\nelse if" = .ok again ∧
      again.tokens.map Token.lexeme =
        [.identifier "x", .operator (.binary (.logic .le)), .operator .not, .string "else",
          .conditional .orWhenTrue] := by
  have hsource : tokenize "x<=!\"else\"else\n\tif" =
      .ok ⟨[⟨.identifier "x", ⟨1, 1⟩⟩,
        ⟨.operator (.binary (.logic .le)), ⟨1, 2⟩⟩, ⟨.operator .not, ⟨1, 4⟩⟩,
        ⟨.string "else", ⟨1, 5⟩⟩, ⟨.conditional .orWhenTrue, ⟨1, 11⟩⟩], ⟨2, 4⟩⟩ := by
    decide +kernel
  have hgap : ∀ {gap : List Char}, gap.all Token.isSkipped = true → Token.IsGap gap :=
    List.all_eq_true.mp
  refine (tokenize_writtenOut hsource).2 _ ?_
  exact .cons _ (List.cons_ne_nil '\n' []) (hgap rfl) <|
    .cons _ (List.cons_ne_nil ' ' []) (hgap rfl) <|
    .cons _ (List.cons_ne_nil '\t' []) (hgap rfl) <|
      .cons _ (List.cons_ne_nil '\r' ['\n', '\n']) (hgap rfl) <|
    .last _

/--
The tokens of two texts, one below the other, are those of both, unless the upper one ends
with `else` and the lower one begins with `if`.
-/
theorem tokenize_newline
    {upper lower : String} {first second : TokenStream}
    (hupper : tokenize upper = .ok first)
    (hlower : tokenize lower = .ok second) :
    tokenize (upper ++ "\n" ++ lower) =
        .ok (first.append (second.relocate (Pos.down (1 + upper.toList.count '\n')))) ↔
      ¬ (first.tokens.getLast?.map Token.lexeme = some (.conditional .otherwise) ∧
        second.tokens.head?.map Token.lexeme = some (.conditional .whenTrue)) := by
  have hnext : first.finish.next '\n' = Pos.start.down (1 + upper.toList.count '\n') := by
    rw [TokenStream.finish_of_read hupper, Pos.start_after_eq, Pos.next, if_pos rfl]
    simp only [Pos.start, Pos.down, Pos.mk.injEq, and_true]
    omega
  have htext : (upper ++ "\n" ++ lower).toList = upper.toList ++ '\n' :: lower.toList := by
    simp
  have hmoved := TokenStream.read_down (1 + upper.toList.count '\n') hlower
  rw [← hnext] at hmoved
  constructor
  · -- what would be one token is not read as two
    rintro h ⟨helse, hif⟩
    have hapart := TokenStream.isChain_apart h
    obtain ⟨t, ht, helse⟩ := Option.map_eq_some_iff.mp helse
    obtain ⟨u, hu, hif⟩ := Option.map_eq_some_iff.mp hif
    rw [TokenStream.append, List.map_append, List.isChain_append] at hapart
    refine hapart.2.2 t.lexeme ?_ u.lexeme ?_ helse hif
    · rw [List.getLast?_map, ht]
      rfl
    · simp [TokenStream.relocate, Token.relocate, hu]
  · intro hnot
    rw [tokenize, htext]
    refine TokenStream.read_newline hupper hmoved ?_
    intro t ht u hu helse hif
    rw [TokenStream.relocate, List.head?_map] at hu
    obtain ⟨v, hv, rfl⟩ := Option.map_eq_some_iff.mp hu
    exact hnot ⟨by rw [ht, ← helse]; rfl, by rw [hv, ← hif]; rfl⟩

/-- A newline in a string counts as a line, and a longer word that begins with `if` does
not go together with `else`. -/
theorem tokenize_newline_longer_word :
    tokenize ("\"a\nb\" else" ++ "\n" ++ "ifx") =
      .ok ⟨[⟨.string "a\nb", ⟨1, 1⟩⟩, ⟨.conditional .otherwise, ⟨2, 4⟩⟩,
        ⟨.identifier "ifx", ⟨3, 1⟩⟩], ⟨3, 4⟩⟩ := by
  have hupper : tokenize "\"a\nb\" else" =
      .ok ⟨[⟨.string "a\nb", ⟨1, 1⟩⟩, ⟨.conditional .otherwise, ⟨2, 4⟩⟩], ⟨2, 8⟩⟩ := by
    decide +kernel
  have hlower : tokenize "ifx" = .ok ⟨[⟨.identifier "ifx", ⟨1, 1⟩⟩], ⟨1, 4⟩⟩ := by
    decide +kernel
  exact (tokenize_newline hupper hlower).mpr (by decide)

end LetLang
