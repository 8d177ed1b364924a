import LetLang.Proofs.Dialogue.Command

/-!
# Reports point at the lines of the dialogue

Lines that are held back are joined, and a fault is found at a place of the joined text.
The report counts lines from the beginning of the dialogue instead. `Repl.Follows` says
which lines have been dealt with and which are held back: it fixes the text that is held
back and all the numbers that a report is made of. So a report names a line that has been
taken as program text and a column of that line, and a fault that is about a name or an
operator is reported where this word stands on the line.
-/

namespace LetLang

/-- Faults of this kind are about a name or an operator of the text. -/
def Kind.IsAboutWord (k : Kind) : Prop :=
  k ∈ [unknown, duplicate, constant, reserved, operand, zeroDivision]

instance (k : Kind) : Decidable k.IsAboutWord :=
  inferInstanceAs (Decidable
    (k ∈ [Kind.unknown, .duplicate, .constant, .reserved, .operand, .zeroDivision]))

section Words

/-- A word that a token is written with stands on the line of the token, in its column. -/
theorem Token.StandsIn.isPrefix_line
    {cs : List Char} {t : Token} {word : List Char}
    (h : t.StandsIn cs)
    (hword : ∀ w, t.lexeme.Spelled w → w = word ∧ '\n' ∉ w) :
    word <+: ((Text.lines cs).getD (t.pos.line - 1) []).drop (t.pos.column - 1) := by
  obtain ⟨before, w, rest, rfl, hspelled, hpos⟩ := h
  obtain ⟨rfl, hw⟩ := hword w hspelled
  rw [hpos]
  exact Text.isPrefix_line_after hw before rest

theorem Lexeme.eq_of_spelled_identifier
    {name : String} {w : List Char}
    (h : (identifier name).Spelled w) :
    w = name.toList ∧ '\n' ∉ w := by
  obtain ⟨hw, hword, _⟩ := h
  refine ⟨hw, fun hmem => ?_⟩
  cases hword.2 _ hmem

theorem Lexeme.eq_of_spelled_operator
    {op : Operator} {w : List Char}
    (h : (operator op).Spelled w) :
    w = op.symbol.toList ∧ '\n' ∉ w := by
  obtain rfl : w = op.symbol.toList := h
  refine ⟨rfl, ?_⟩
  cases op with
  | assign => decide
  | not => decide
  | binary op =>
      cases op with
      | arith op => cases op <;> decide
      | logic op => cases op <;> decide

/-- The name or the operator that a fault is about stands on the line of the fault, in
its column. -/
theorem Fault.PointsInto.isPrefix_line
    {source : String} {stream : TokenStream} {fault : Fault}
    (htokenize : tokenize source = .ok stream)
    (h : fault.PointsInto stream)
    (hkind : fault.cause.kind.IsAboutWord) :
    fault.cause.snippet.toList <+:
      ((Text.lines source.toList).getD (fault.pos.line - 1) []).drop
        (fault.pos.column - 1) := by
  have hname (hmem : ⟨.identifier fault.cause.snippet, fault.pos⟩ ∈ stream.tokens) :=
    (standsIn_of_mem_tokens htokenize hmem).isPrefix_line fun w =>
      Lexeme.eq_of_spelled_identifier
  have hoperator (hmem : ∃ op : Operator, op.symbol = fault.cause.snippet ∧
      ⟨.operator op, fault.pos⟩ ∈ stream.tokens) :
      fault.cause.snippet.toList <+:
        ((Text.lines source.toList).getD (fault.pos.line - 1) []).drop
          (fault.pos.column - 1) := by
    obtain ⟨op, hsymbol, hop⟩ := hmem
    rw [← hsymbol]
    exact (standsIn_of_mem_tokens htokenize hop).isPrefix_line fun w =>
      Lexeme.eq_of_spelled_operator
  simp only [Kind.IsAboutWord, List.mem_cons, List.not_mem_nil, or_false] at hkind
  unfold PointsInto at h
  rcases hkind with hkind | hkind | hkind | hkind | hkind | hkind
  all_goals rw [hkind] at h
  · exact hname h
  · exact hname h
  · exact hname h
  · exact hname h
  · exact hoperator h
  · exact hoperator h

end Words

/--
The lines that are held back when some more have been taken: none as soon as they make a
complete text.
-/
def Continuation.heldBack (held lines : List String) : List String :=
  lines.foldl (fun held line => if isOpen ("\n".intercalate (held ++ [line])).toList then
    held ++ [line] else []) held

theorem Continuation.heldBack_cons
    (held : List String) (line : String) (lines : List String) :
    heldBack held (line :: lines) = heldBack (heldBack held [line]) lines := by
  simp only [heldBack, List.foldl_cons, List.foldl_nil]

namespace Repl

/-- The loop has dealt with the lines `before`, and holds back the lines `during`. -/
structure Follows (s : Repl) (before during : List String) : Prop where
  lineCount_eq : s.lineCount = before.length + during.length
  text_eq : s.text = "\n".intercalate during
  text_ne : during ≠ [] → s.text ≠ ""
  joinedLine_eq : s.joinedLine = before.length + 1

variable {s : Repl} {before during : List String} {line : String}

theorem follows_start :
    Follows start [] [] := by
  exact ⟨rfl, rfl, fun h => absurd rfl h, rfl⟩

/-- A line that does not end in a blank is joined to the others as it is. -/
theorem Follows.joined_eq
    (h : s.Follows before during)
    (hne : line ≠ "")
    (hink : Text.EndsInInk line.toList) :
    s.joined line = "\n".intercalate (during ++ [line]) := by
  have hline : line.toList ≠ [] := fun hnil => hne (String.toList_inj.mp hnil)
  by_cases hduring : during = []
  · subst hduring
    have htext : s.text = "" := h.text_eq
    rw [joined, if_pos htext, hink.trimEnd_eq, List.nil_append,
      String.intercalate_singleton]
  · have hjoined : Text.EndsInInk (s.text ++ "\n" ++ line).toList := by
      rw [String.toList_append]
      exact hink.append _ hline
    rw [joined, if_neg (h.text_ne hduring), hjoined.trimEnd_eq, h.text_eq,
      Text.intercalate_concat hduring]

/-- A line is held back with the others if the text that they make is open, or it
completes them. -/
theorem Follows.step
    (h : s.Follows before during)
    (hne : line ≠ "")
    (hink : Text.EndsInInk line.toList)
    (showTree : Bool) (style : Style) :
    ∃ before', before' ++ Continuation.heldBack during [line] =
      before ++ during ++ [line] ∧
      (s.step showTree style line).2.Follows before'
        (Continuation.heldBack during [line]) := by
  have hjoined := h.joined_eq hne hink
  have hcount := h.lineCount_eq
  simp only [Continuation.heldBack, List.foldl_cons, List.foldl_nil, ← hjoined]
  by_cases hopen : Continuation.isOpen (s.joined line).toList = true
  · rw [if_pos hopen]
    refine ⟨before, (List.append_assoc ..).symm, ?_⟩
    have htext : s.joined line ≠ "" := by
      intro hempty
      rw [hempty] at hopen
      cases hopen
    have hnext : (s.step showTree style line).2 =
        ⟨s.chain, s.joined line, s.joinedLine, s.lineCount + 1⟩ := by
      simp only [Repl.step, if_pos hopen]
    rw [hnext]
    constructor
    · simp only [List.length_append, List.length_singleton]
      omega
    · exact hjoined
    · exact fun _ => htext
    · simp only [joinedLine, if_neg htext]
      exact h.joinedLine_eq
  · rw [if_neg hopen]
    refine ⟨before ++ during ++ [line], List.append_nil _, ?_⟩
    have hnext : ∃ chain, (s.step showTree style line).2 =
        ⟨chain, "", s.joinedLine, s.lineCount + 1⟩ := by
      simp only [Repl.step, if_neg hopen]
      split
      · exact ⟨_, rfl⟩
      · split
        · exact ⟨_, rfl⟩
        · exact ⟨_, rfl⟩
    obtain ⟨chain, hnext⟩ := hnext
    rw [hnext]
    constructor
    · simp only [List.length_append, List.length_singleton, List.length_nil]
      omega
    · rfl
    · exact fun hnil => absurd rfl hnil
    · simp only [joinedLine, if_pos, List.length_append, List.length_singleton]
      omega

/-- Of all lines that have been taken, those since a text was last complete are
held back. -/
theorem Follows.after_heldBack
    (h : s.Follows before during)
    {lines : List String}
    (hlines : ∀ l ∈ lines, l ≠ "" ∧ Text.EndsInInk l.toList)
    (showTree : Bool) (style : Style) :
    ∃ before', before' ++ Continuation.heldBack during lines = before ++ during ++ lines ∧
      (s.after showTree style lines).Follows before'
        (Continuation.heldBack during lines) := by
  induction lines generalizing s before during with
  | nil =>
      exact ⟨before, by rw [Continuation.heldBack, List.foldl_nil, List.append_nil], h⟩
  | cons l ls ih =>
      obtain ⟨⟨hne, hink⟩, hls⟩ := List.forall_mem_cons.mp hlines
      obtain ⟨between, hstep, hnext⟩ := h.step hne hink showTree style
      obtain ⟨before', hsplit, hafter⟩ := ih hnext hls
      rw [hstep] at hsplit
      rw [after_cons, Continuation.heldBack_cons]
      exact ⟨before', by simpa using hsplit, hafter⟩

/-- Of all lines that have been taken, the last ones may be held back. -/
theorem Follows.after
    (h : s.Follows before during)
    {lines : List String}
    (hlines : ∀ l ∈ lines, l ≠ "" ∧ Text.EndsInInk l.toList)
    (showTree : Bool) (style : Style) :
    ∃ before' during',
      before' ++ during' = before ++ during ++ lines ∧
        (s.after showTree style lines).Follows before' during' := by
  obtain ⟨before', hsplit, hafter⟩ := h.after_heldBack hlines showTree style
  exact ⟨before', _, hsplit, hafter⟩

theorem Follows.lines_joined
    (h : s.Follows before during)
    (hne : line ≠ "")
    (hink : Text.EndsInInk line.toList)
    (hnewline : ∀ l ∈ during ++ [line], '\n' ∉ l.toList) :
    Text.lines (s.joined line).toList = (during ++ [line]).map String.toList := by
  rw [h.joined_eq hne hink]
  exact Text.lines_intercalate (by simp) hnewline

/-- A place of the joined text is on one of the lines, and the number that is reported for
it is the number of this line. -/
theorem Follows.exists_line
    {fault : Fault}
    (h : s.Follows before during)
    (hne : line ≠ "")
    (hink : Text.EndsInInk line.toList)
    (hnewline : ∀ l ∈ during ++ [line], '\n' ∉ l.toList)
    (hplace : Text.HasPlace (s.joined line).toList fault.pos) :
    ∃ l, (before ++ during ++ [line])[s.joinedLine + fault.pos.line - 1 - 1]? = some l ∧
      (Text.lines (s.joined line).toList)[fault.pos.line - 1]? = some l.toList := by
  have hlines := h.lines_joined hne hink hnewline
  have hpos := hplace.line_pos
  have hle := hplace.line_le
  rw [hlines, List.length_map] at hle
  have hlt : fault.pos.line - 1 < (during ++ [line]).length := by
    omega
  have hindex : s.joinedLine + fault.pos.line - 1 - 1 =
      before.length + (fault.pos.line - 1) := by
    rw [h.joinedLine_eq]
    omega
  have hget : (during ++ [line])[fault.pos.line - 1]? =
      some (during ++ [line])[fault.pos.line - 1] :=
    List.getElem?_eq_getElem hlt
  refine ⟨(during ++ [line])[fault.pos.line - 1], ?_, ?_⟩
  · rw [hindex, List.append_assoc, List.getElem?_append_right (Nat.le_add_right _ _),
      Nat.add_sub_cancel_left, hget]
  · rw [hlines, List.getElem?_map, hget]
    rfl

end Repl

namespace Command

theorem ink_of_mem_programs
    {lines : List String} {text : String}
    (h : text ∈ programs lines) :
    text ≠ "" ∧ Text.EndsInInk text.toList ∧
      ((∀ l ∈ lines, '\n' ∉ l.toList) → '\n' ∉ text.toList) := by
  obtain ⟨line, hline, htext⟩ := List.mem_filterMap.mp h
  have hcommand : ofLine line = .program text := by
    cases hcommand : ofLine line with
    | program other =>
        rw [hcommand] at htext
        cases htext
        rfl
    | _ =>
        rw [hcommand] at htext
        cases htext
  obtain ⟨hne, hink, hnewline⟩ := ink_of_program hcommand
  exact ⟨hne, hink, fun hlines => hnewline (hlines line hline)⟩

end Command

namespace Dialogue

/--
The line that a report names has been taken as program text, and on it stands, in the
column that the report names, what the fault is about.
-/
theorem respond_reports_line
    (showTree : Bool) (style : Style)
    {lines : List String} {line last text : String} {fault : Fault} {chain : Chain}
    (hlines : ∀ l ∈ lines ++ [line], '\n' ∉ l.toList)
    (hline : Command.ofLine line = .program last)
    (htext : ((fresh showTree).heard style lines).assessed last = (text, false))
    (hrun : evaluateSource text ((fresh showTree).heard style lines).workspace.chain =
      .error fault chain) :
    ∃ row taken,
      (((fresh showTree).heard style lines).respond style line).output =
        Repl.shown showTree text ++
          (style.paint .bold ("<in>:" ++ toString row ++ ":" ++
            toString fault.pos.column ++ ": ") ++
            style.paint .red "error: " ++ fault.cause.message.render style ++ "\n" ++
            fault.diagnosis style text ++ "\n") ∧
      1 ≤ row ∧ (Command.programs (lines ++ [line]))[row - 1]? = some taken ∧
      (Text.lines text.toList)[fault.pos.line - 1]? = some taken.toList ∧
      1 ≤ fault.pos.column ∧ fault.pos.column ≤ taken.length + 1 ∧
      (fault.cause.kind.IsAboutWord →
        fault.cause.snippet.toList <+: taken.toList.drop (fault.pos.column - 1)) := by
  have hstands := (standsAt_fresh showTree).heard style lines
  generalize (fresh showTree).heard style lines = d at hstands htext hrun
  have hprograms : Command.programs (lines ++ [line]) =
      Command.programs lines ++ [last] := by
    rw [Command.programs_append, Command.programs_cons, hline]
    rfl
  have hink : ∀ l ∈ Command.programs lines, l ≠ "" ∧ Text.EndsInInk l.toList := fun l hl =>
    ⟨(Command.ink_of_mem_programs hl).1, (Command.ink_of_mem_programs hl).2.1⟩
  obtain ⟨before, during, hsplit, hfollows⟩ := Repl.follows_start.after hink showTree style
  simp only [List.nil_append] at hsplit
  generalize Repl.start.after showTree style (Command.programs lines) = s
    at hstands hfollows
  obtain ⟨hne, hlast, _⟩ := Command.ink_of_program hline
  rw [hstands.assessed_eq, Prod.mk.injEq] at htext
  obtain ⟨rfl, hopen⟩ := htext
  rw [hstands.chain_eq] at hrun
  obtain ⟨hplace, _⟩ := place_of_evaluateSource_error hrun
  have hnewline : ∀ l ∈ during ++ [last], '\n' ∉ l.toList := by
    intro l hl
    have hmem : l ∈ Command.programs (lines ++ [line]) := by
      rw [hprograms, ← hsplit, List.append_assoc]
      exact List.mem_append_right before hl
    exact (Command.ink_of_mem_programs hmem).2.2 hlines
  obtain ⟨taken, hrow, htaken⟩ := hfollows.exists_line hne hlast hnewline hplace
  have hgetD : (Text.lines (s.joined last).toList).getD
      (fault.pos.line - 1) [] = taken.toList := by
    rw [List.getD_eq_getElem?_getD, htaken]
    rfl
  have hjoined : s.joined last ≠ "" := by
    intro hempty
    have hlines := congrArg List.getLast? (hfollows.lines_joined hne hlast hnewline)
    rw [hempty, List.map_append, List.map_singleton, List.getLast?_concat] at hlines
    exact hne (String.toList_inj.mp (Option.some.inj hlines).symm)
  have houtput : (d.respond style line).output =
      Repl.shown showTree (s.joined last) ++
        fault.report style Workspace.inputPath (s.joined last) s.joinedLine := by
    rw [respond_eq, hline]
    refine (hstands.submit style last).1.trans ?_
    simp only [Repl.step, hopen, if_neg hjoined, hrun]
    rfl
  have hpos := hplace.line_pos
  have hfirst := hfollows.joinedLine_eq
  have hcolumn := hplace.column_le
  refine ⟨s.joinedLine + fault.pos.line - 1, taken, houtput, ?_, ?_, htaken,
    hplace.column_pos, ?_, ?_⟩
  · omega
  · rw [hprograms, ← hsplit]
    exact hrow
  · rwa [hgetD, String.length_toList] at hcolumn
  · intro hkind
    cases htokenize : tokenize (s.joined last) with
    | error fault' =>
        rw [evaluateSource, parse_of_tokenize_error htokenize] at hrun
        cases hrun
        rw [TokenStream.kind_of_read_error htokenize] at hkind
        exact absurd hkind (by decide)
    | ok stream =>
        rw [← hgetD]
        exact (pointsInto_of_evaluateSource_error htokenize hrun).isPrefix_line htokenize
          hkind

/-- A refused command and a blank line do not count. The name that is not declared stands
in the fifth column of the second line of program text. -/
theorem respond_reports_line_held :
    let d := (fresh false).heard .plain ["exit now", "", "(pi +"]
    d.assessed "e * b )" = ("(pi +\ne * b )", false) ∧
      (∃ chain, evaluateSource "(pi +\ne * b )" d.workspace.chain =
        .error ⟨.notDeclared "b", ⟨2, 5⟩⟩ chain) ∧
      Command.programs ["exit now", "", "(pi +", "  e * b )"] = ["(pi +", "e * b )"] ∧
      (d.respond .plain "  e * b )").output =
        "<in>:2:5: error: symbol 'b' was not declared\n  e * b )\n      ^\n" := by
  intro d
  have hprograms : Command.programs ["exit now", "", "(pi +", "  e * b )"] =
      ["(pi +", "e * b )"] := by
    rfl
  have hstands : StandsAt false ⟨Chain.initial version, "(pi +", 1, 1⟩ d :=
    (standsAt_fresh false).heard .plain ["exit now", "", "(pi +"]
  have htext : d.assessed "e * b )" = ("(pi +\ne * b )", false) := by
    rw [hstands.assessed_eq]
    rfl
  have htokens : tokenize "(pi +\ne * b )" =
      .ok ⟨[⟨.openParen, ⟨1, 1⟩⟩, ⟨.identifier "pi", ⟨1, 2⟩⟩,
        ⟨.operator (.binary (.arith .add)), ⟨1, 5⟩⟩, ⟨.identifier "e", ⟨2, 1⟩⟩,
        ⟨.operator (.binary (.arith .mul)), ⟨2, 3⟩⟩, ⟨.identifier "b", ⟨2, 5⟩⟩,
        ⟨.closeParen, ⟨2, 7⟩⟩], ⟨2, 8⟩⟩ := by
    decide +kernel
  have hparse : parse "(pi +\ne * b )" = .ok (.program .unknown
      [.operation .arithmetic ⟨1, 2⟩ "+" ⟨1, 5⟩ (.identifier ⟨1, 2⟩ "pi")
        (.operation .arithmetic ⟨2, 1⟩ "*" ⟨2, 3⟩ (.identifier ⟨2, 1⟩ "e")
          (.identifier ⟨2, 5⟩ "b"))]) :=
    (parse_of_tokenize htokens).trans rfl
  have hrun : ∃ chain, evaluateSource "(pi +\ne * b )" d.workspace.chain =
      .error ⟨.notDeclared "b", ⟨2, 5⟩⟩ chain := by
    rw [hstands.chain_eq, evaluateSource, hparse]
    exact ⟨_, rfl⟩
  have hlines : ∀ l ∈ ["exit now", "", "(pi +"] ++ ["  e * b )"], '\n' ∉ l.toList := by
    simp
  -- the first line has a sign in that column
  have hsecond : ∀ row taken, 1 ≤ row → ["(pi +", "e * b )"][row - 1]? = some taken →
      "b".toList <+: taken.toList.drop 4 → row = 2 := by
    intro row taken hrow htaken hword
    obtain ⟨hlt, _⟩ := List.getElem?_eq_some_iff.mp htaken
    have hrows : row = 1 ∨ row = 2 := by
      simp only [List.length_cons, List.length_nil] at hlt
      omega
    rcases hrows with rfl | rfl
    · cases htaken
      exact absurd hword (by decide)
    · rfl
  refine ⟨htext, hrun, hprograms, ?_⟩
  obtain ⟨chain, hrun⟩ := hrun
  obtain ⟨row, taken, houtput, hrow, htaken, _, _, _, hword⟩ :=
    respond_reports_line false .plain hlines rfl htext hrun
  obtain rfl := hsecond row taken hrow (hprograms ▸ htaken) (hword (by decide))
  rw [houtput, Repl.shown, hparse]
  rfl

end Dialogue
end LetLang
