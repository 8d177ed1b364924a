import LetLang.Proofs.Text.Place
import LetLang.Proofs.Token.Spacing

/-!
# Splitting a text loses nothing

A text that splits into tokens is made of the words of its tokens, in order, with
separators before, between and after them. The position of a token tells how many lines and
characters come before its word. `tokenize_eq_ok_iff` says this, and also when a word has
come to its end; so there is one way only to see tokens in a text, and splitting finds it.
-/

namespace LetLang

/-- Nothing but separators. -/
def Token.IsGap (cs : List Char) : Prop :=
  ∀ c ∈ cs, Token.isSkipped c = true

/-- The position is that of whatever follows the characters `before`: it counts the
newlines among them, and the characters after the last newline. -/
structure Pos.Follows (pos : Pos) (before : List Char) : Prop where
  line_eq : pos.line = 1 + before.count '\n'
  column_eq : pos.column = 1 + (before.reverse.takeWhile (· ≠ '\n')).length

theorem Pos.follows_iff
    (pos : Pos) (before : List Char) :
    pos.Follows before ↔ pos = start.after before := by
  rw [start_after_eq]
  constructor
  · rintro ⟨hline, hcolumn⟩
    cases pos
    cases hline
    cases hcolumn
    rfl
  · rintro rfl
    exact ⟨rfl, rfl⟩

namespace TokenStream

/-- After the characters `before`, the text writes the tokens: each of them by a word,
which stands where the position of the token says and ends there, and by separators after
the word. -/
inductive Covers : List Char → List Token → List Char → Prop
  | nil
      {before : List Char} :
      Covers before [] []
  | cons
      {before word gap rest : List Char} {t : Token} {ts : List Token}
      (hpos : t.pos.Follows before)
      (hword : t.lexeme.Spelled word)
      (hends : t.lexeme.EndsBefore (gap ++ rest))
      (hgap : Token.IsGap gap)
      (hrest : Covers (before ++ (word ++ gap)) ts rest) :
      Covers before (t :: ts) (word ++ (gap ++ rest))

/-- What is read is written in the text, after some separators. -/
theorem exists_covers_of_read
    (before : List Char) {cs : List Char} {stream : TokenStream}
    (h : read (Pos.start.after before) cs = .ok stream) :
    ∃ margin rest, cs = margin ++ rest ∧ Token.IsGap margin ∧
      Covers (before ++ margin) stream.tokens rest ∧
      stream.finish = Pos.start.after (before ++ cs) := by
  generalize hpos : Pos.start.after before = pos at h
  fun_induction read pos cs generalizing before stream with
  | case1 pos =>
      cases h
      refine ⟨[], [], rfl, List.forall_mem_nil _, .nil, ?_⟩
      rw [List.append_nil, hpos]
  | case2 pos c cs hskip ih =>
      have hnext : Pos.start.after (before ++ [c]) = pos.next c := by
        rw [Pos.after_append, hpos]
        rfl
      obtain ⟨margin, rest, rfl, hmargin, hcovers, hfinish⟩ := ih (before ++ [c]) hnext h
      rw [List.append_assoc, List.singleton_append] at hcovers hfinish
      exact ⟨c :: margin, rest, rfl, List.forall_mem_cons.mpr ⟨hskip, hmargin⟩,
        hcovers, hfinish⟩
  | case3 pos c cs hskip cause hscan => cases h
  | case4 pos c cs hskip lexeme n hscan fault hread ih => cases h
  | case5 pos c cs hskip lexeme n hscan stream' hread ih =>
      cases h
      obtain ⟨w, after, rfl, rfl, hspelled, hends⟩ := Lexeme.spelled_of_scan hscan
      rw [List.take_left, List.drop_left] at hread ih
      have hnext : Pos.start.after (before ++ c :: w) = pos.after (c :: w) := by
        rw [Pos.after_append, hpos]
      obtain ⟨gap, rest, rfl, hgap, hcovers, hfinish⟩ := ih (before ++ c :: w) hnext hread
      rw [List.append_assoc] at hcovers hfinish
      have hfollows : pos.Follows before := (Pos.follows_iff pos before).mpr hpos.symm
      refine ⟨[], c :: w ++ (gap ++ rest), rfl, List.forall_mem_nil _, ?_, hfinish⟩
      rw [List.append_nil]
      exact .cons hfollows hspelled hends hgap hcovers

/-- What is written in the text is read. -/
theorem Covers.read_eq
    {before rest : List Char} {ts : List Token}
    (h : Covers before ts rest) :
    read (Pos.start.after before) rest = .ok ⟨ts, Pos.start.after (before ++ rest)⟩ := by
  induction h with
  | nil => rw [read, List.append_nil]
  | cons hpos hword hends hgap hrest ih =>
      rename_i before word gap rest t ts
      have ht : Pos.start.after before = t.pos := ((Pos.follows_iff _ _).mp hpos).symm
      rw [Pos.after_append, ht, Pos.after_append] at ih
      rw [ht, read_spelled t.pos hword hends, read_separators _ rest hgap, ih]
      simp only [List.append_assoc]
      rfl

/-- The tokens stand in the text one after the other, behind what comes before all
of them. -/
theorem Covers.offset_lt
    {before rest : List Char} {ts : List Token}
    (h : Covers before ts rest) :
    ts.Pairwise (fun t u => Text.offset (before ++ rest) t.pos <
      Text.offset (before ++ rest) u.pos) ∧
      ∀ t ∈ ts, before.length ≤ Text.offset (before ++ rest) t.pos ∧
        Text.offset (before ++ rest) t.pos < (before ++ rest).length := by
  induction h with
  | nil => exact ⟨.nil, List.forall_mem_nil _⟩
  | cons hpos hword hends hgap hrest ih =>
      rename_i before word gap rest t ts
      obtain ⟨hpairwise, hbounds⟩ := ih
      have hfirst : Text.offset (before ++ (word ++ (gap ++ rest)))
          t.pos = before.length := by
        rw [(Pos.follows_iff _ _).mp hpos, Text.offset_after]
      obtain ⟨c, w, rfl, _⟩ := hword.exists_cons
      rw [List.append_assoc before, List.append_assoc (c :: w)] at hpairwise hbounds
      refine ⟨List.pairwise_cons.mpr ⟨?_, hpairwise⟩, List.forall_mem_cons.mpr ⟨?_, ?_⟩⟩
      · intro u hu
        have hu' := (hbounds u hu).1
        rw [hfirst]
        simp only [List.length_append, List.length_cons] at hu'
        omega
      · rw [hfirst]
        simp
      · intro u hu
        refine ⟨?_, (hbounds u hu).2⟩
        have hu' := (hbounds u hu).1
        simp only [List.length_append, List.length_cons] at hu'
        omega

/-- The tokens of a text stand in it one after the other, and before its end. -/
theorem offset_lt_of_tokenize
    {source : String} {stream : TokenStream}
    (h : tokenize source = .ok stream) :
    stream.tokens.Pairwise
        (fun t u => Text.offset source.toList t.pos < Text.offset source.toList u.pos) ∧
      ∀ t ∈ stream.tokens, Text.offset source.toList t.pos <
        Text.offset source.toList stream.finish := by
  obtain ⟨margin, rest, hsource, _, hcovers, hfinish⟩ := exists_covers_of_read [] h
  obtain ⟨hpairwise, hbounds⟩ := hcovers.offset_lt
  have hend := Text.offset_after source.toList []
  rw [List.append_nil] at hend
  rw [List.nil_append] at hfinish hpairwise hbounds
  rw [hfinish, hend, hsource]
  exact ⟨hpairwise, fun t ht => (hbounds t ht).2⟩

/-- The tokens of a text end before the text does. -/
theorem pos_ne_finish
    {source : String} {stream : TokenStream} {t : Token}
    (h : tokenize source = .ok stream)
    (ht : t ∈ stream.tokens) :
    t.pos ≠ stream.finish := by
  intro heq
  have hlt := (offset_lt_of_tokenize h).2 t ht
  rw [heq] at hlt
  exact Nat.lt_irrefl _ hlt

/-- No two tokens of a text stand in the same place. -/
theorem index_eq_of_pos_eq
    {source : String} {stream : TokenStream} {i j : Nat} {t u : Token}
    (h : tokenize source = .ok stream)
    (ht : stream.tokens[i]? = some t)
    (hu : stream.tokens[j]? = some u)
    (hpos : t.pos = u.pos) :
    i = j := by
  have hpairwise := List.pairwise_iff_getElem.mp (offset_lt_of_tokenize h).1
  obtain ⟨hi, rfl⟩ := List.getElem?_eq_some_iff.mp ht
  obtain ⟨hj, rfl⟩ := List.getElem?_eq_some_iff.mp hu
  rcases Nat.lt_trichotomy i j with hlt | heq | hgt
  · have hoffset := hpairwise i j hi hj hlt
    rw [hpos] at hoffset
    exact absurd hoffset (Nat.lt_irrefl _)
  · exact heq
  · have hoffset := hpairwise j i hj hi hgt
    rw [hpos] at hoffset
    exact absurd hoffset (Nat.lt_irrefl _)

end TokenStream

/--
A text splits into tokens if it is written so: each stands where its position says, by a
word that is spelled as the token is, between separators.
-/
theorem tokenize_eq_ok_iff
    (source : String) (stream : TokenStream) :
    tokenize source = .ok stream ↔
      ∃ margin rest, source.toList = margin ++ rest ∧ Token.IsGap margin ∧
        TokenStream.Covers margin stream.tokens rest ∧
          stream.finish.Follows source.toList := by
  constructor
  · intro h
    obtain ⟨margin, rest, hsource, hmargin, hcovers, hfinish⟩ :=
      TokenStream.exists_covers_of_read [] h
    exact ⟨margin, rest, hsource, hmargin, hcovers, (Pos.follows_iff _ _).mpr hfinish⟩
  · rintro ⟨margin, rest, hsource, hmargin, hcovers, hfinish⟩
    obtain ⟨tokens, finish⟩ := stream
    obtain rfl := (Pos.follows_iff _ _).mp hfinish
    rw [tokenize, hsource, TokenStream.read_separators _ rest hmargin]
    exact hcovers.read_eq

end LetLang
