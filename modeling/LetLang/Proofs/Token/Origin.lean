import LetLang.Proofs.Text.Place
import LetLang.Proofs.Token.Spacing

/-!
# Where tokens and lexical faults stand

A text is read from its beginning, and the position at which a token or a fault is found is
the position after the characters that come before it. So a token is written in the text
where its position says, and a lexical fault quotes the text from there on.
-/

namespace LetLang

/-- The token is written in the text where its position says. -/
def Token.StandsIn (cs : List Char) (t : Token) : Prop :=
  ∃ before w rest, cs = before ++ (w ++ rest) ∧ t.lexeme.Spelled w ∧
    t.pos = Pos.start.after before

namespace Lexeme

/-- The quoted part of a run with two points is the beginning of the run. -/
theorem throughSecondPoint_isPrefix
    {run : List Char}
    (h : 1 < run.count '.') :
    throughSecondPoint run <+: run := by
  obtain ⟨whole, rest, rfl, htake, _, hwhole, hrest⟩ := exists_leading (· ≠ '.') run
  have hno : whole.count '.' = 0 := by
    refine List.count_eq_zero.mpr fun hmem => ?_
    simpa using hwhole _ hmem
  cases rest with
  | nil =>
      rw [List.append_nil, hno] at h
      omega
  | cons c rest =>
      obtain rfl : c = '.' := by
        simpa using hrest c rfl
      obtain ⟨fraction, tail, rfl, htake', _, hfraction, htail⟩ :=
        exists_leading (· ≠ '.') rest
      have hno' : fraction.count '.' = 0 := by
        refine List.count_eq_zero.mpr fun hmem => ?_
        simpa using hfraction _ hmem
      cases tail with
      | nil =>
          simp only [List.count_append, List.count_cons, hno, hno', List.append_nil,
            beq_self_eq_true, if_true] at h
          omega
      | cons d tail =>
          obtain rfl : d = '.' := by
            simpa using htail d rfl
          have hdrop : (whole ++ '.' :: (fraction ++ '.' :: tail)).dropWhile (· ≠ '.') =
              '.' :: (fraction ++ '.' :: tail) := by
            rw [List.dropWhile_append_of_pos hwhole]
            simp
          refine ⟨tail, ?_⟩
          simp only [throughSecondPoint, htake, hdrop, List.drop_succ_cons,
            List.drop_zero, htake']
          simp

/-- A fault in reading a lexeme quotes the beginning of the text. -/
theorem Refusal.snippet_isPrefix
    {c : Char} {cs : List Char} {cause : Cause}
    (h : Refusal c cs cause) :
    cause.snippet.toList <+: c :: cs := by
  cases h with
  | string hc hcs => simp [Cause.snippet]
  | points hcs hrun hrest hpoints =>
      rename_i w rest
      rw [hcs, ← List.cons_append, Cause.snippet, String.toList_ofList]
      exact (throughSecondPoint_isPrefix hpoints).trans (List.prefix_append _ rest)
  | point hc hcs => simp [Cause.snippet, hc]
  | character hc hcs => simp [Cause.snippet]

end Lexeme

namespace TokenStream

/-- A fault in splitting a text is found after some of its characters, before one that
starts no lexeme. -/
theorem refusal_of_read_error
    (before : List Char) {cs : List Char} {fault : Fault}
    (h : read (Pos.start.after before) cs = .error fault) :
    ∃ more c rest,
      cs = more ++ c :: rest ∧ fault.pos = Pos.start.after (before ++ more) ∧
        Token.isSkipped c = false ∧
        Lexeme.Refusal c rest fault.cause := by
  generalize hpos : Pos.start.after before = pos at h
  fun_induction read pos cs generalizing before with
  | case1 pos => cases h
  | case2 pos c cs hskip ih =>
      obtain ⟨more, d, rest, rfl, hfault, hrefusal⟩ :=
        ih (before ++ [c]) (by rw [Pos.after_append, hpos]; rfl) h
      refine ⟨c :: more, d, rest, rfl, ?_, hrefusal⟩
      rw [hfault, List.append_assoc]
      rfl
  | case3 pos c cs hskip cause hscan =>
      cases h
      refine ⟨[], c, cs, rfl, ?_, Bool.eq_false_iff.mpr hskip,
        Lexeme.refusal_of_scan_error hscan⟩
      rw [List.append_nil, hpos]
  | case4 pos c cs hskip lexeme n hscan fault' hread ih =>
      cases h
      obtain ⟨w, after, rfl, rfl, _, _⟩ := Lexeme.spelled_of_scan hscan
      rw [List.take_left, List.drop_left] at hread ih
      obtain ⟨more, d, rest, hrest, hfault, hrefusal⟩ :=
        ih (before ++ c :: w) (by rw [Pos.after_append, hpos]) hread
      refine ⟨c :: w ++ more, d, rest, ?_, ?_, hrefusal⟩
      · rw [hrest]
        simp
      · rw [hfault, List.append_assoc]
  | case5 pos c cs hskip lexeme n hscan stream hread ih => cases h

/-- A fault in splitting a text is found after some of its characters, and quotes those
that follow. -/
theorem exists_of_read_error
    (before : List Char) {cs : List Char} {fault : Fault}
    (h : read (Pos.start.after before) cs = .error fault) :
    ∃ more rest,
      cs = more ++ rest ∧ fault.pos = Pos.start.after (before ++ more) ∧
        fault.cause.snippet.toList <+: rest := by
  obtain ⟨more, c, rest, hcs, hpos, _, hrefusal⟩ := refusal_of_read_error before h
  exact ⟨more, c :: rest, hcs, hpos, hrefusal.snippet_isPrefix⟩

/-- Every token is written where its position says. -/
theorem standsIn_of_mem_read
    (before : List Char) {cs : List Char} {stream : TokenStream} {t : Token}
    (h : read (Pos.start.after before) cs = .ok stream)
    (ht : t ∈ stream.tokens) :
    t.StandsIn (before ++ cs) := by
  generalize hpos : Pos.start.after before = pos at h
  fun_induction read pos cs generalizing before stream with
  | case1 pos =>
      cases h
      cases ht
  | case2 pos c cs hskip ih =>
      have htail := ih (before ++ [c]) ht (by rw [Pos.after_append, hpos]; rfl) h
      rwa [List.append_assoc] at htail
  | case3 pos c cs hskip cause hscan => cases h
  | case4 pos c cs hskip lexeme n hscan fault' hread ih => cases h
  | case5 pos c cs hskip lexeme n hscan rest hread ih =>
      cases h
      obtain ⟨w, after, rfl, rfl, hspelled, _⟩ := Lexeme.spelled_of_scan hscan
      rw [List.take_left, List.drop_left] at hread ih
      rcases List.mem_cons.mp ht with rfl | htail
      · exact ⟨before, c :: w, after, by simp, hspelled, hpos.symm⟩
      · have hstands := ih (before ++ c :: w) htail (by rw [Pos.after_append, hpos]) hread
        rwa [List.append_assoc] at hstands

end TokenStream

/-- The tokens of a text are written in it. -/
theorem standsIn_of_mem_tokens
    {source : String} {stream : TokenStream} {t : Token}
    (h : tokenize source = .ok stream)
    (ht : t ∈ stream.tokens) :
    t.StandsIn source.toList := by
  exact TokenStream.standsIn_of_mem_read [] h ht

namespace Token.StandsIn

variable {cs : List Char} {t : Token}

theorem hasPlace
    (h : t.StandsIn cs) :
    Text.HasPlace cs t.pos := by
  obtain ⟨before, w, rest, rfl, _, hpos⟩ := h
  rw [hpos]
  exact Text.hasPlace_after before (w ++ rest)

/-- The token is written at the offset of its position. -/
theorem exists_spelled_at_offset
    (h : t.StandsIn cs) :
    ∃ w, t.lexeme.Spelled w ∧ w <+: cs.drop (Text.offset cs t.pos) := by
  obtain ⟨before, w, rest, rfl, hspelled, hpos⟩ := h
  refine ⟨w, hspelled, ?_⟩
  rw [hpos, Text.drop_offset_after]
  exact List.prefix_append w rest

end Token.StandsIn
end LetLang
