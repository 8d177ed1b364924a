import LetLang.Proofs.Evaluation.Origin
import LetLang.Proofs.Token.Coverage
import LetLang.Report.Diagnostic

/-!
# What a caret marks

The report of a fault shows a line of the text and marks a part of it by a caret and a tail
below. The caret stands below the column of the fault, and with its tail it is as wide as
what the fault quotes. This is text of the line for almost all faults. The exceptions are
faults of grammar: where the text ends too early, its end is quoted by name, and of a token
that goes over several lines more can be quoted than stands on the first of them.
-/

namespace LetLang
namespace Text

/-- The first line of a text is what stands before its first newline. -/
theorem exists_lines_eq_cons
    (cs : List Char) :
    ∃ ms, lines cs = cs.takeWhile (· ≠ '\n') :: ms := by
  obtain ⟨l, rest, hcs, htake, _, hl, hrest⟩ := exists_leading (· ≠ '\n') cs
  have hnewline : '\n' ∉ l := fun hmem => by simpa using hl _ hmem
  rw [htake, hcs]
  cases rest with
  | nil =>
      exact ⟨[], by rw [lines, List.append_nil]; exact List.splitOn_eq_singleton hnewline⟩
  | cons c rest =>
      obtain rfl : c = '\n' := by simpa using hrest c rfl
      exact ⟨lines rest, List.splitOn_append_cons_self_of_not_mem hnewline rest⟩

/-- How much of a text stands on its first line. -/
def room (cs : List Char) : Nat :=
  (cs.takeWhile (· ≠ '\n')).length

/-- The line of the position after some characters ends where the line of what follows
them ends. -/
theorem length_line_after
    (before rest : List Char) :
    ((lines (before ++ rest)).getD ((Pos.start.after before).line - 1) []).length =
      (Pos.start.after before).column - 1 + room rest := by
  obtain ⟨ls, l, rfl, hls, hl⟩ := exists_ended_append before
  obtain ⟨ms, hlines⟩ := exists_lines_eq_cons (l ++ rest)
  have hkeep : ∀ c ∈ l, decide (c ≠ '\n') = true := by
    intro c hc
    exact decide_eq_true fun heq => hl (heq ▸ hc)
  rw [Pos.start_after hls hl, List.append_assoc, lines_ended_append hls, hlines,
    List.takeWhile_append_of_pos hkeep]
  simp [room]

theorem le_room_iff
    (n : Nat) (cs : List Char) :
    n ≤ room cs ↔ n ≤ cs.length ∧ '\n' ∉ cs.take n := by
  induction cs generalizing n with
  | nil => simp [room]
  | cons c cs ih =>
      cases n with
      | zero => simp
      | succ n =>
          by_cases hc : c = '\n'
          · simp [room, hc]
          · have hne : ¬ '\n' = c := fun h => hc h.symm
            have hroom : room (c :: cs) = room cs + 1 := by simp [room, hc]
            rw [hroom, Nat.add_le_add_iff_right, ih n]
            simp [hne]

end Text

namespace Lexeme

open Text

/--
A newline stands within what is quoted of a token: within a string, or among the characters
after `else`, where `if` would be.
-/
def Overruns (cs : List Char) : Lexeme → Prop
  | string text => '\n' ∈ text.toList.dropLast
  | conditional .orWhenTrue => '\n' ∈ (cs.drop 4).take 3
  | _ => False

theorem newline_not_mem_symbol
    (op : Operator) :
    '\n' ∉ op.symbol.toList := by
  cases op with
  | binary op =>
      cases op with
      | arith op => cases op <;> decide
      | logic op => cases op <;> decide
  | assign => decide
  | not => decide

/-- A word in which no newline stands is on one line. -/
theorem fits_of_newline_not_mem
    {text : String} {w : List Char}
    (hw : w = text.toList)
    (hne : w ≠ [])
    (hnewline : '\n' ∉ w)
    (rest : List Char) :
    max text.length 1 ≤ room (w ++ rest) := by
  have hlength : max text.length 1 = w.length := by
    have hpos := List.length_pos_iff.mpr hne
    rw [hw, String.length_toList] at hpos ⊢
    omega
  rw [hlength, le_room_iff, List.take_left]
  exact ⟨by simp, hnewline⟩

theorem fits_string_iff
    (text : String) (rest : List Char) :
    max text.length 1 ≤ room ('"' :: (text.toList ++ ['"']) ++ rest) ↔
      '\n' ∉ text.toList.dropLast := by
  rw [← String.length_toList, le_room_iff]
  rcases List.eq_nil_or_concat text.toList with htext | ⟨body, last, htext⟩
  · simp [htext]
  · have hlength : max (body.concat last).length 1 = body.length + 1 := by
      simp
    rw [htext, hlength]
    simp

theorem fits_elseIf_iff
    {gap : List Char}
    (hgap : gap ≠ [])
    (rest : List Char) :
    max "else if".length 1 ≤ room (['e', 'l', 's', 'e'] ++ gap ++ ['i', 'f'] ++ rest) ↔
      ¬ (conditional .orWhenTrue).Overruns
        (['e', 'l', 's', 'e'] ++ gap ++ ['i', 'f'] ++ rest) := by
  have hpos := List.length_pos_iff.mpr hgap
  have hwidth : max "else if".length 1 = 7 := by
    decide
  rw [hwidth, le_room_iff]
  simp [Overruns]
  omega

/-- What is quoted of a token stands on its first line, unless a newline stands
within it. -/
theorem Spelled.fits_iff
    {lexeme : Lexeme} {w : List Char}
    (h : lexeme.Spelled w)
    (rest : List Char) :
    max lexeme.text.length 1 ≤ room (w ++ rest) ↔ ¬ lexeme.Overruns (w ++ rest) := by
  have hplain (hw : w = lexeme.text.toList) (hnewline : '\n' ∉ w) :
      max lexeme.text.length 1 ≤ room (w ++ rest) ↔ ¬ False := by
    obtain ⟨c, cs, hcons, _⟩ := h.exists_cons
    exact iff_of_true
      (fits_of_newline_not_mem hw (hcons ▸ List.cons_ne_nil c cs) hnewline rest) not_false
  cases lexeme with
  | number digits =>
      refine hplain h.1 fun hmem => ?_
      cases h.2.1 _ hmem
  | identifier name =>
      refine hplain h.1 fun hmem => ?_
      cases h.2.1.2 _ hmem
  | string text =>
      obtain ⟨rfl, _⟩ := h
      exact fits_string_iff text rest
  | operator op => exact hplain h (h ▸ newline_not_mem_symbol op)
  | semicolon => exact hplain h (h ▸ by decide)
  | openParen => exact hplain h (h ▸ by decide)
  | closeParen => exact hplain h (h ▸ by decide)
  | declare constant => cases constant <;> exact hplain h (h ▸ by decide)
  | conditional branch =>
      cases branch with
      | whenTrue => exact hplain h (h ▸ by decide)
      | otherwise => exact hplain h (h ▸ by decide)
      | orWhenTrue =>
          obtain ⟨gap, hgap, _, rfl⟩ := h
          exact fits_elseIf_iff hgap rest

theorem one_le_room
    {c : Char}
    (h : Token.isSkipped c = false)
    (cs : List Char) :
    1 ≤ room (c :: cs) := by
  have hfirst : ¬ '\n' = c := by
    rintro rfl
    cases h
  simp [le_room_iff, hfirst]

/-- What is marked for a lexical fault stands on one line. -/
theorem Refusal.fits
    {c : Char} {cs : List Char} {cause : Cause}
    (h : Refusal c cs cause)
    (hc : Token.isSkipped c = false) :
    max cause.length 1 ≤ room (c :: cs) := by
  cases h with
  | string hquote hcs => exact one_le_room hc cs
  | points hcs hrun hrest hpoints =>
      rename_i w rest
      obtain ⟨tail, htail⟩ := throughSecondPoint_isPrefix hpoints
      have hne : throughSecondPoint (c :: w) ≠ [] := by
        simp [throughSecondPoint]
      have hnewline : '\n' ∉ throughSecondPoint (c :: w) := by
        intro hmem
        cases hrun '\n' (htail ▸ List.mem_append_left tail hmem)
      have hfits :=
        fits_of_newline_not_mem (String.toList_ofList).symm hne hnewline (tail ++ rest)
      rw [← List.append_assoc, htail, List.cons_append, ← hcs] at hfits
      simpa [Cause.length, Cause.snippet] using hfits
  | point hpoint hcs => exact one_le_room hc cs
  | character hchar hcs => simpa [Cause.length, Cause.snippet] using one_le_room hc cs

end Lexeme

namespace Text

/-- A caret below a column of a line, with a tail that makes it that wide, marks only text
of the line, or it has no tail and stands right after the end of the line. -/
def StaysOn (line : List Char) (column width : Nat) : Prop :=
  column - 1 + width ≤ line.length ∨ column = line.length + 1 ∧ width = 1

/-- The line of a place. -/
def lineAt (cs : List Char) (p : Pos) : List Char :=
  (lines cs).getD (p.line - 1) []

theorem HasPlace.staysOn_one
    {cs : List Char} {p : Pos}
    (h : HasPlace cs p) :
    StaysOn (lineAt cs p) p.column 1 := by
  have hpos := h.column_pos
  have hle := h.column_le
  unfold StaysOn lineAt
  omega

/-- At the position after some characters, what stays on the line is what has room on the
line of what follows. -/
theorem staysOn_after_iff
    (before rest : List Char) {width : Nat}
    (h : 1 ≤ width) :
    StaysOn (lineAt (before ++ rest) (Pos.start.after before))
      (Pos.start.after before).column width ↔
      width ≤ room rest ∨ room rest = 0 ∧ width = 1 := by
  have hpos := (hasPlace_after before rest).column_pos
  rw [StaysOn, lineAt, length_line_after]
  omega

end Text

open Text

theorem Token.StandsIn.staysOn_iff
    {cs : List Char} {t : Token}
    (h : t.StandsIn cs) :
    StaysOn (lineAt cs t.pos) t.pos.column (max t.lexeme.text.length 1) ↔
      ¬ t.lexeme.Overruns (cs.drop (offset cs t.pos)) := by
  obtain ⟨before, w, rest, rfl, hspelled, hpos⟩ := h
  rw [hpos, staysOn_after_iff before (w ++ rest) (Nat.le_max_right _ _), drop_offset_after,
    ← hspelled.fits_iff]
  obtain ⟨c, ds, rfl, hc⟩ := hspelled.exists_cons
  have hroom := Lexeme.one_le_room hc (ds ++ rest)
  rw [← List.cons_append] at hroom
  omega

namespace Fault

variable {source : String} {stream : TokenStream} {fault : Fault}

/-- How wide the caret of a fault is, with its tail. -/
def width (fault : Fault) : Nat :=
  max fault.cause.length 1

/-- The caret of a fault marks only text of the line of the fault, or it stands alone right
after its end. -/
def StaysOnLine (source : String) (fault : Fault) : Prop :=
  StaysOn (lineAt source.toList fault.pos) fault.pos.column fault.width

/-- The fault refuses the end of the text, or a token within which a newline stands. -/
def Overruns (source : String) (fault : Fault) : Prop :=
  fault.cause.kind = .grammar ∧ ∃ stream, tokenize source = .ok stream ∧
    (stream.finish = fault.pos ∨
      ∃ t ∈ stream.tokens, t.pos = fault.pos ∧
        t.lexeme.Overruns (source.toList.drop (offset source.toList fault.pos)))

theorem one_le_width
    (fault : Fault) :
    1 ≤ fault.width := by
  exact Nat.le_max_right _ _

/-- A fault is marked as wide as what it quotes, unless it quotes no word of the text. -/
theorem width_eq
    (hlexical : fault.cause.kind ≠ .lexical)
    (htarget : fault.cause.kind ≠ .target) :
    fault.width = max fault.cause.snippet.length 1 := by
  obtain ⟨cause, pos⟩ := fault
  cases cause <;> simp_all [width, Cause.length, Cause.snippet, Cause.kind]

theorem width_of_target
    (h : fault.cause.kind = .target) :
    fault.width = 1 := by
  obtain ⟨cause, pos⟩ := fault
  cases cause <;> simp_all [width, Cause.length, Cause.kind]

/-- A fault that quotes a token stays on its line unless a newline stands within
the token. -/
theorem staysOnLine_iff_of_token
    {t : Token}
    (htokenize : tokenize source = .ok stream)
    (ht : t ∈ stream.tokens)
    (hpos : t.pos = fault.pos)
    (hwidth : fault.width = max t.lexeme.text.length 1) :
    fault.StaysOnLine source ↔
      ¬ t.lexeme.Overruns (source.toList.drop (offset source.toList fault.pos)) := by
  rw [StaysOnLine, hwidth, ← hpos]
  exact (standsIn_of_mem_tokens htokenize ht).staysOn_iff

/-- No other token and not the end stands where a token does. -/
theorem overruns_iff_of_token
    {t : Token}
    (htokenize : tokenize source = .ok stream)
    (hkind : fault.cause.kind = .grammar)
    (ht : t ∈ stream.tokens)
    (hpos : t.pos = fault.pos) :
    fault.Overruns source ↔
      t.lexeme.Overruns (source.toList.drop (offset source.toList fault.pos)) := by
  constructor
  · rintro ⟨_, stream', htokenize', hcases⟩
    obtain rfl := Except.ok.inj (htokenize'.symm.trans htokenize)
    rcases hcases with hfinish | ⟨u, hu, hupos, hoverruns⟩
    · exact absurd (hpos.trans hfinish.symm) (TokenStream.pos_ne_finish htokenize ht)
    · obtain ⟨i, hi⟩ := List.mem_iff_getElem?.mp ht
      obtain ⟨j, hj⟩ := List.mem_iff_getElem?.mp hu
      obtain rfl := TokenStream.index_eq_of_pos_eq htokenize hi hj (hpos.trans hupos.symm)
      obtain rfl := Option.some.inj (hi.symm.trans hj)
      exact hoverruns
  · intro hoverruns
    exact ⟨hkind, stream, htokenize, Or.inr ⟨t, ht, hpos, hoverruns⟩⟩

/-- Behind the end of the text there is room for a caret, and not for the name of
the end. -/
theorem not_staysOnLine_of_finish
    (htokenize : tokenize source = .ok stream)
    (hpos : stream.finish = fault.pos)
    (hwidth : fault.width = max Token.endText.length 1) :
    ¬ fault.StaysOnLine source := by
  have hend : fault.pos = Pos.start.after source.toList := by
    rw [← hpos, TokenStream.finish_of_read htokenize]
  have hiff := staysOn_after_iff source.toList [] fault.one_le_width
  rw [List.append_nil] at hiff
  rw [StaysOnLine, hend, hiff, hwidth]
  decide

/-- A fault that quotes an identifier or an operator stays on its line, and is none of
the exceptions. -/
theorem staysOnLine_iff_of_quote
    {lexeme : Lexeme}
    (htokenize : tokenize source = .ok stream)
    (hmem : ⟨lexeme, fault.pos⟩ ∈ stream.tokens)
    (htext : lexeme.text = fault.cause.snippet)
    (hlexeme : ∀ cs, ¬ lexeme.Overruns cs)
    (hkind : fault.cause.kind ∉ [.lexical, .grammar, .target]) :
    fault.StaysOnLine source ↔ ¬ fault.Overruns source := by
  simp only [List.mem_cons, List.not_mem_nil, or_false, not_or] at hkind
  have hwidth := width_eq hkind.1 hkind.2.2
  rw [← htext] at hwidth
  exact iff_of_true ((staysOnLine_iff_of_token htokenize hmem rfl hwidth).mpr (hlexeme _))
    fun h => hkind.2.1 h.1

theorem staysOnLine_iff_of_pointsInto
    (htokenize : tokenize source = .ok stream)
    (h : fault.PointsInto stream) :
    fault.StaysOnLine source ↔ ¬ fault.Overruns source := by
  have hplace := h.hasPlace htokenize
  cases hkind : fault.cause.kind <;> simp only [PointsInto, hkind] at h
  case grammar =>
    have hwidth : fault.width = max fault.cause.snippet.length 1 :=
      width_eq (by simp [hkind]) (by simp [hkind])
    rcases h with ⟨t, ht, htext, hpos⟩ | ⟨htext, hpos⟩
    · rw [← htext] at hwidth
      rw [staysOnLine_iff_of_token htokenize ht hpos hwidth,
        overruns_iff_of_token htokenize hkind ht hpos]
    · rw [← htext] at hwidth
      exact iff_of_false (not_staysOnLine_of_finish htokenize hpos hwidth)
        (not_not_intro ⟨hkind, stream, htokenize, Or.inl hpos⟩)
  case target =>
    have hother : ¬ fault.Overruns source :=
      fun hoverruns => by cases hkind.symm.trans hoverruns.1
    refine iff_of_true ?_ hother
    rw [StaysOnLine, width_of_target hkind]
    exact hplace.staysOn_one
  case operand | zeroDivision =>
    obtain ⟨op, hsymbol, hmem⟩ := h
    exact staysOnLine_iff_of_quote htokenize hmem hsymbol
      (fun _ => not_false) (by simp [hkind])
  all_goals
    exact staysOnLine_iff_of_quote htokenize h rfl (fun _ => not_false) (by simp [hkind])

theorem staysOnLine_of_tokenize_error
    (h : tokenize source = .error fault) :
    fault.StaysOnLine source := by
  obtain ⟨before, c, rest, hsource, hpos, hc, hrefusal⟩ :=
    TokenStream.refusal_of_read_error [] h
  rw [List.nil_append] at hpos
  rw [StaysOnLine, hsource, hpos, staysOn_after_iff before (c :: rest) fault.one_le_width]
  exact Or.inl (hrefusal.fits hc)

end Fault

namespace Diagnostic

/-- A line with a part set apart, and below it a caret with a tail as wide as this part.
Both stand behind two spaces. -/
def underlined (style : Style) (accent : Accent) (line : List Char)
    (column width : Nat) : String :=
  "  " ++ String.ofList (line.take (column - 1)) ++
      style.paint accent (String.ofList ((line.drop (column - 1)).take width)) ++
      String.ofList (line.drop (column - 1 + width)) ++ "\n" ++
    "  " ++ String.ofList (List.replicate (column - 1) ' ') ++
      style.paint accent (String.ofList ('^' :: List.replicate (width - 1) '~'))

theorem pickLine_of_hasPlace
    {cs : List Char} {p : Pos}
    (h : HasPlace cs p) :
    pickLine (lines cs) p.line = lineAt cs p := by
  have hpos := h.line_pos
  have hle := h.line_le
  have hindex : min (p.line : Int) (lines cs).length - 1 = ((p.line - 1 : Nat) : Int) := by
    omega
  have hnonneg : ¬ ((p.line - 1 : Nat) : Int) < 0 := by
    omega
  rw [pickLine, hindex, if_neg hnonneg, if_neg hnonneg, Int.toNat_natCast, lineAt]

/-- A fault at a place of the text shows the line of the place, with a caret below
its column. -/
theorem excerpt_ofFault
    {source : String} {fault : Fault}
    (h : HasPlace source.toList fault.pos)
    (style : Style) (accent : Accent) :
    (ofFault fault).excerpt style accent source =
      underlined style accent (lineAt source.toList fault.pos)
        fault.pos.column fault.width := by
  have hplace : (ofFault fault).place (some source) =
      ((fault.pos.line : Int), (fault.pos.column : Int)) := by
    have hpos := h.line_pos
    have hknown : (ofFault fault).line ≠ 0 ∧ (some source).isSome = true := by
      simp only [ofFault, Option.isSome_some, and_true]
      omega
    rw [place, if_pos hknown]
    rfl
  have hcolumn : ((fault.pos.column : Int) - 1).toNat = fault.pos.column - 1 := by
    omega
  have hwidth : (max (ofFault fault).length 1).toNat = fault.width := by
    simp only [ofFault, Fault.width]
    omega
  simp only [excerpt, hplace, pickLine_of_hasPlace h, hcolumn, hwidth, underlined]

end Diagnostic

/-- A fault of a text is found in splitting it, or it points at what it is about. -/
theorem lexical_or_pointsInto
    {source : String} {fault : Fault} {c : Chain}
    (h : tokenize source = .error fault ∨ parse source = .error fault ∨
      ∃ c', evaluateSource source c = .error fault c') :
    tokenize source = .error fault ∨ ∃ stream, tokenize source = .ok stream ∧
      fault.PointsInto stream := by
  cases htokenize : tokenize source with
  | error fault' =>
      have hparse := parse_of_tokenize_error htokenize
      rcases h with h | h | ⟨c', h⟩
      · exact Or.inl (htokenize.symm.trans h)
      · cases hparse.symm.trans h
        exact Or.inl rfl
      · rw [evaluateSource, hparse] at h
        cases h
        exact Or.inl rfl
  | ok stream =>
      refine Or.inr ⟨stream, rfl, ?_⟩
      rcases h with h | h | ⟨c', h⟩
      · cases htokenize.symm.trans h
      · exact pointsInto_of_parse_error htokenize h
      · exact pointsInto_of_evaluateSource_error htokenize h

/--
The caret and its tail mark only text of the line shown, unless the fault refuses the end
of the text or a token within which a newline stands.
-/
theorem caret_stays_on_line_iff
    {source : String} {fault : Fault} {c : Chain}
    (h : tokenize source = .error fault ∨ parse source = .error fault ∨
      ∃ c', evaluateSource source c = .error fault c')
    (style : Style) (accent : Accent) :
    HasPlace source.toList fault.pos ∧
      (Diagnostic.ofFault fault).excerpt style accent source =
        Diagnostic.underlined style accent (lineAt source.toList fault.pos)
          fault.pos.column fault.width ∧
      (StaysOn (lineAt source.toList fault.pos) fault.pos.column fault.width ↔
        ¬ fault.Overruns source) := by
  rcases lexical_or_pointsInto h with htokenize | ⟨stream, htokenize, hpoints⟩
  · have hplace := (place_of_tokenize_error htokenize).1
    have hother : ¬ fault.Overruns source := by
      rintro ⟨_, stream, hstream, _⟩
      cases htokenize.symm.trans hstream
    refine ⟨hplace, Diagnostic.excerpt_ofFault hplace style accent, ?_⟩
    exact iff_of_true (Fault.staysOnLine_of_tokenize_error htokenize) hother
  · have hplace := hpoints.hasPlace htokenize
    refine ⟨hplace, Diagnostic.excerpt_ofFault hplace style accent, ?_⟩
    exact Fault.staysOnLine_iff_of_pointsInto htokenize hpoints

/-- The text ends after an operator. The name of the end is marked, ten columns further
than the line goes. -/
theorem caret_stays_on_line_iff_unfinished :
    ∃ fault, parse "x +" = .error fault ∧ fault.Overruns "x +" ∧
      lineAt "x +".toList fault.pos = "x +".toList ∧
      (Diagnostic.ofFault fault).excerpt .plain .red "x +" = "  x +\n     ^~~~~~~~~~~" ∧
      ¬ StaysOn "x +".toList fault.pos.column fault.width := by
  have htokens : tokenize "x +" =
      .ok ⟨[⟨.identifier "x", ⟨1, 1⟩⟩, ⟨.operator (.binary (.arith .add)), ⟨1, 3⟩⟩],
        ⟨1, 4⟩⟩ := by
    decide +kernel
  have hparse : parse "x +" = .error ⟨.unexpectedToken "End of file", ⟨1, 4⟩⟩ :=
    (parse_of_tokenize htokens).trans rfl
  have hoverruns : Fault.Overruns "x +" ⟨.unexpectedToken "End of file", ⟨1, 4⟩⟩ :=
    ⟨rfl, _, htokens, Or.inl rfl⟩
  have hline : lineAt "x +".toList ⟨1, 4⟩ = "x +".toList := by
    decide
  obtain ⟨_, hexcerpt, hstays⟩ :=
    caret_stays_on_line_iff (c := Chain.initial "1") (Or.inr (Or.inl hparse)) .plain .red
  rw [hline] at hexcerpt hstays
  refine ⟨_, hparse, hoverruns, hline, hexcerpt.trans ?_, fun h => hstays.mp h hoverruns⟩
  decide

end LetLang
