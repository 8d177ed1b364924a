import LetLang.Proofs.Report.Caret
import LetLang.Report.Reporter
import Mathlib.Data.List.DropRight

/-!
# Reports are told by the history of the reporter

A reporter keeps a registry of files, into which registrations write and which some errors
clear. What it does is told here without a registry, from the events that have taken place:
a report is headed by the file registered first since the last error that cleared the
registry, and it shows the piece of source that the latest registration of this file has
brought. The steps may be nested: a guarded block goes through steps of its own until one
of them ends the run, and how the block ends decides whether an error is thrown after them.
The main statement is `perform_follows_history`.
-/

namespace LetLang

/-- What is thrown when a guarded piece of work ends like this. What ends the run
passes through. -/
def Ending.thrown? : Ending → Option Diagnostic
  | finished | exited _ => none
  | failed d => some d
  | interrupted => some .interrupted
  | tooDeep => some .tooDeep
  | crashed description => some (.crash description)

/-- The code with which an error ends the run, if it does. -/
def Diagnostic.exit? (fatal : Bool) (d : Diagnostic) : Option (Option Int) :=
  if fatal || d.isInternal then some (some 1) else none

/-- The code with which a guarded piece of work ends the run, if it does. -/
def Ending.exit? (fatal : Bool) : Ending → Option (Option Int)
  | exited code => some code
  | ending => ending.thrown?.bind (Diagnostic.exit? fatal)

namespace Reporter

/-- What can be done with a reporter. -/
inductive Step
  | registerFile (path : String)
  | registerLine (path source : String) (firstLine : Int)
  | removeLine (path : String)
  | warn (d : Diagnostic)
  | throw (d : Diagnostic)
  /-- Goes through some steps under the guard of the reporter, and then ends. -/
  | guarded (body : List Step) (ending : Ending)

mutual

/-- Does one step. A block that one of its own steps has ended ends the run too. -/
def perform (style : Style) (r : Reporter) : Step → Reported
  | .registerFile path => ⟨"", none, r.registerFile path⟩
  | .registerLine path source firstLine => ⟨"", none, r.registerLine path source firstLine⟩
  | .removeLine path => ⟨"", none, r.registerFile path⟩
  | .warn d => ⟨r.warn style d, none, r⟩
  | .throw d => r.throw style d
  | .guarded body ending =>
    let done := performAll style r body
    let settled := done.reporter.settle style (done.exit.elim ending .exited)
    ⟨done.output ++ settled.output, settled.exit, settled.reporter⟩

/-- Does steps in order, until one of them ends the run. -/
def performAll (style : Style) (r : Reporter) : List Step → Reported
  | [] => ⟨"", none, r⟩
  | step :: steps =>
    let first := perform style r step
    match first.exit with
    | some _ => first
    | none =>
      let rest := performAll style first.reporter steps
      ⟨first.output ++ rest.output, rest.exit, rest.reporter⟩

end

/-- The reporter after some steps, all of which are done, whether or not one of them asks
to end the run. -/
def after (style : Style) (r : Reporter) (history : List Step) : Reporter :=
  history.foldl (fun r step => (r.perform style step).reporter) r

theorem after_concat
    (style : Style) (r : Reporter) (history : List Step) (step : Step) :
    r.after style (history ++ [step]) =
      ((r.after style history).perform style step).reporter := by
  exact List.foldl_concat ..

/-- What takes place in a step. -/
inductive Event
  /-- A file is registered, with a piece of source or without one. -/
  | registered (path : String) (listing : Option Listing)
  | warned (d : Diagnostic)
  | thrown (d : Diagnostic)

mutual

/-- The code with which a step ends the run, if it does. -/
def Step.exit? (fatal : Bool) : Step → Option (Option Int)
  | registerFile _ | registerLine _ _ _ | removeLine _ | warn _ => none
  | throw d => d.exit? fatal
  | guarded body ending => (exitAll? fatal body).or (ending.exit? fatal)

/-- The code with which the first step that ends the run does so. -/
def Step.exitAll? (fatal : Bool) : List Step → Option (Option Int)
  | [] => none
  | step :: steps => (step.exit? fatal).or (exitAll? fatal steps)

end

mutual

/-- What takes place in a step, in order. To take the source of a file away is to register
the file without one. -/
def Step.events (fatal : Bool) : Step → List Event
  | registerFile path | removeLine path => [.registered path none]
  | registerLine path source firstLine => [.registered path (some ⟨source, firstLine⟩)]
  | warn d => [.warned d]
  | throw d => [.thrown d]
  | guarded body ending =>
    eventsAll fatal body ++ if exitAll? fatal body = none then
      ending.thrown?.toList.map .thrown else []

/-- What takes place in steps that go on until one of them ends the run. -/
def Step.eventsAll (fatal : Bool) : List Step → List Event
  | [] => []
  | step :: steps =>
      step.events fatal ++ if step.exit? fatal = none then eventsAll fatal steps else []

end

namespace Event

/-- The event is an error that does not end the run. -/
def clears (fatal : Bool) : Event → Bool
  | thrown d => d.exit? fatal = none
  | _ => false

/-- What is registered by an event. -/
def registration? : Event → Option (String × Option Listing)
  | registered path listing => some (path, listing)
  | _ => none

/-- What has been registered since the last error that did not end the run. -/
def registrations (fatal : Bool) (past : List Event) : List (String × Option Listing) :=
  (past.rtakeWhile fun e => !e.clears fatal).filterMap registration?

/-- The latest of some registrations of the file registered first. -/
def leading? : List (String × Option Listing) → Option (String × Option Listing)
  | [] => none
  | (path, listing) :: rest => (((path, listing) :: rest).filter (·.1 = path)).getLast?

/-- The registration that heads the next report. -/
def heading? (fatal : Bool) (past : List Event) : Option (String × Option Listing) :=
  leading? (registrations fatal past)

/-- What becomes of the registry: an error that does not end the run clears it, and nothing
but a registration writes into it. -/
def registry (fatal : Bool) (before : Ledger String (Option Listing)) :
    Event → Ledger String (Option Listing)
  | registered path listing => Ledger.put path listing before
  | warned _ => before
  | thrown d => if d.exit? fatal = none then [] else before

end Event

/-- What stands before a report: the file, and the place if the file has a piece of source
and the report a line. -/
def headed (style : Style) (heading : Option (String × Option Listing))
    (d : Diagnostic) : String :=
  match heading with
  | none => ""
  | some (path, none) => style.paint .bold (path ++ ": ")
  | some (path, some listing) =>
    if d.line = 0 then style.paint .bold (path ++ ": ")
    else
      style.paint .bold
        (path ++ ":" ++ toString (listing.firstLine + d.line - 1) ++ ":" ++
          toString d.column ++ ": ")

/--
What stands below a report: the line of the source, or its last line if it has not so many,
with a caret.
-/
def pictured (style : Style) (accent : Accent) (heading : Option (String × Option Listing))
    (d : Diagnostic) : String :=
  match heading with
  | some (_, some listing) =>
    if d.line ≠ 0 ∧ listing.source ≠ "" ∧ d.isInternal = false ∧ d.showsSource = true then
      let lines := Text.lines listing.source.toList
      let line := lines.getD (min d.line.toNat lines.length - 1) []
      Diagnostic.underlined style accent line d.column.toNat (max d.length 1).toNat ++ "\n"
    else ""
  | _ => ""

namespace Event

/-- The line and the column are not negative. -/
def IsPlaced : Event → Prop
  | registered _ _ => True
  | warned d | thrown d => 0 ≤ d.line ∧ 0 ≤ d.column

instance : DecidablePred IsPlaced
  | registered _ _ => inferInstanceAs (Decidable True)
  | warned _ | thrown _ => inferInstanceAs (Decidable (_ ∧ _))

/-- What is printed when an event takes place. -/
def text (style : Style) (heading : Option (String × Option Listing)) : Event → String
  | registered _ _ => ""
  | warned d =>
    headed style heading d ++ style.paint .magenta "warning: " ++
      d.message.render style ++ "\n" ++
      pictured style .magenta heading d
  | thrown d =>
    headed style heading d ++ (if d.isInternal then
      style.paint .red "[internal] " else "") ++
      style.paint .red "error: " ++ d.message.render style ++ "\n" ++
        pictured style .red heading d

/-- What is printed when events take place after some others. Each is headed by what was
registered before it. -/
def texts (style : Style) (fatal : Bool) (past : List Event) : List Event → String
  | [] => ""
  | e :: es => e.text style (heading? fatal past) ++ texts style fatal (past ++ [e]) es

end Event

section Headings

variable {fatal : Bool}

/-- Writing under a key changes the first entry only if there is none or the key is
its own. -/
theorem head?_put
    (path : String) (listing : Option Listing)
    (registry : Ledger String (Option Listing)) :
    (Ledger.put path listing registry).head? =
      match registry.head? with
      | none => some (path, listing)
      | some first => if first.1 = path then some (path, listing) else some first := by
  cases registry with
  | nil => rfl
  | cons first rest =>
      by_cases h : first.1 = path
      · simp [Ledger.put, h]
      · simp [Ledger.put, h]

/-- A later registration counts only if it is of the file registered first. -/
theorem Event.leading?_concat
    (noted : List (String × Option Listing)) (path : String) (listing : Option Listing) :
    leading? (noted ++ [(path, listing)]) =
      match leading? noted with
      | none => some (path, listing)
      | some first => if first.1 = path then some (path, listing) else some first := by
  cases noted with
  | nil => simp [leading?]
  | cons first rest =>
      obtain ⟨key, entry⟩ := first
      have hne : ((key, entry) :: rest).filter (·.1 = key) ≠ [] := by
        simp
      have hlast : leading? ((key, entry) :: rest) =
          some ((((key, entry) :: rest).filter (·.1 = key)).getLast hne) :=
        List.getLast?_eq_getLast_of_ne_nil hne
      have hkey : ((((key, entry) :: rest).filter (·.1 = key)).getLast hne).1 = key := by
        simpa using (List.mem_filter.mp (List.getLast_mem hne)).2
      have happend : leading? ((key, entry) :: rest ++ [(path, listing)]) =
          (((key, entry) :: rest).filter (·.1 = key) ++
            [(path, listing)].filter (·.1 = key)).getLast? := by
        rw [← List.filter_append]
        rfl
      rw [happend, hlast]
      by_cases h : key = path
      · have hself : [(path, listing)].filter (·.1 = key) = [(path, listing)] := by
          simp [h]
        simp only [hkey, if_pos h, hself, List.getLast?_concat]
      · have hother : [(path, listing)].filter (·.1 = key) = [] := by
          simp [Ne.symm h]
        simp only [hkey, if_neg h, hother, List.append_nil]
        exact hlast

/-- The registry after some events. -/
def replay (fatal : Bool) (past : List Event) : Ledger String (Option Listing) :=
  past.foldl (Event.registry fatal) []

/-- The first entry of the registry is the registration that heads the next report. -/
theorem head?_replay
    (past : List Event) :
    (replay fatal past).head? = Event.heading? fatal past := by
  -- the induction is on the last event, which alone can change the entry
  induction past using List.reverseRecOn with
  | nil => rfl
  | append_singleton past e ih =>
      rw [replay, List.foldl_append, ← replay, Event.heading?, Event.registrations,
        List.rtakeWhile_concat]
      rw [Event.heading?] at ih
      cases e with
      | registered path listing =>
          have hgoes : (!(Event.registered path listing).clears fatal) = true := rfl
          rw [if_pos hgoes, List.filterMap_append, ← Event.registrations]
          change (Ledger.put path listing (replay fatal past)).head? =
            Event.leading? (_ ++ [(path, listing)])
          rw [head?_put, Event.leading?_concat, ih]
      | warned d =>
          have hgoes : (!(Event.warned d).clears fatal) = true := rfl
          rw [if_pos hgoes, List.filterMap_append, ← Event.registrations]
          change (replay fatal past).head? = Event.leading? (_ ++ [])
          rw [List.append_nil, ih]
      | thrown d =>
          by_cases hexit : d.exit? fatal = none
          · have hclears : ¬ (!(Event.thrown d).clears fatal) = true := by
              simp [Event.clears, hexit]
            rw [if_neg hclears]
            simp [Event.registry, hexit, Event.leading?]
          · have hgoes : (!(Event.thrown d).clears fatal) = true := by
              simp [Event.clears, hexit]
            rw [if_pos hgoes, List.filterMap_append, ← Event.registrations]
            have hnothing : [Event.thrown d].filterMap Event.registration? = [] := rfl
            simpa [Event.registry, hexit, hnothing] using ih

theorem replay_append
    (past events : List Event) :
    replay fatal (past ++ events) =
      events.foldl (Event.registry fatal) (replay fatal past) := by
  exact List.foldl_append

end Headings

section Reports

variable {d : Diagnostic} {r : Reporter}

theorem pickLine_of_pos
    {number : Int}
    (h : 0 < number)
    (lines : List (List Char)) :
    Diagnostic.pickLine lines number =
      lines.getD (min number.toNat lines.length - 1) [] := by
  cases lines with
  | nil =>
      have hindex : min number (([] : List (List Char)).length : Int) - 1 = -1 := by
        simp only [List.length_nil]
        omega
      rw [Diagnostic.pickLine, hindex]
      rfl
  | cons first rest =>
      have hindex : min number ((first :: rest).length : Int) - 1 =
          ((min number.toNat (first :: rest).length - 1 : Nat) : Int) := by
        simp only [List.length_cons]
        omega
      have hnonneg :
          ¬ ((min number.toNat (first :: rest).length - 1 : Nat) : Int) < 0 := by
        omega
      rw [Diagnostic.pickLine, hindex, if_neg hnonneg, if_neg hnonneg, Int.toNat_natCast]

/-- A diagnostic with a line shows this line, or the last one of the source, with a caret
below its column. -/
theorem excerpt_of_placed
    (hline : 0 < d.line)
    (hcolumn : 0 ≤ d.column)
    (style : Style) (accent : Accent) (source : String) :
    d.excerpt style accent source =
      Diagnostic.underlined style accent
        ((Text.lines source.toList).getD
          (min d.line.toNat (Text.lines source.toList).length - 1) [])
        d.column.toNat (max d.length 1).toNat := by
  have hplace : d.place (some source) = (d.line, d.column) := by
    have hknown : d.line ≠ 0 ∧ (some source).isSome = true := ⟨by omega, rfl⟩
    rw [Diagnostic.place, if_pos hknown]
  have hstart : (d.column - 1).toNat = d.column.toNat - 1 := by
    omega
  simp only [Diagnostic.excerpt, hplace, pickLine_of_pos hline, hstart,
    Diagnostic.underlined]

/-- What stands before a report is told by the first entry of the registry. -/
theorem header_eq
    (style : Style) :
    r.header style d = headed style r.registry.head? d := by
  obtain ⟨fatal, registry⟩ := r
  cases registry with
  | nil => rfl
  | cons first rest =>
      obtain ⟨path, listing⟩ := first
      cases listing with
      | none => rfl
      | some listing =>
          by_cases h : d.line = 0
          · simp [header, headed, Diagnostic.place, h]
          · simp [header, headed, Diagnostic.place, h]

/-- What stands below a report is told by the first entry of the registry. -/
theorem below_eq
    (style : Style) (accent : Accent)
    (hline : 0 ≤ d.line)
    (hcolumn : 0 ≤ d.column) :
    (match r.shownSource? d with
      | some source => d.excerpt style accent source ++ "\n"
      | none => "") = pictured style accent r.registry.head? d := by
  obtain ⟨fatal, registry⟩ := r
  cases registry with
  | nil => rfl
  | cons first rest =>
      obtain ⟨path, listing⟩ := first
      cases listing with
      | none => rfl
      | some listing =>
          by_cases h : d.line ≠ 0 ∧ listing.source ≠ "" ∧
            d.isInternal = false ∧ d.showsSource = true
          · have hsource : shownSource? ⟨fatal, (path, some listing) :: rest⟩
                d = some listing.source :=
              if_pos ⟨h.2.1, h.2.2.1, h.2.2.2, h.1⟩
            rw [hsource]
            simp only [pictured, List.head?_cons, if_pos h]
            rw [excerpt_of_placed (by omega) hcolumn]
          · have hsource : shownSource? ⟨fatal, (path, some listing) :: rest⟩ d = none :=
              if_neg fun hall => h ⟨hall.2.2.2, hall.1, hall.2.1, hall.2.2.1⟩
            rw [hsource]
            simp only [pictured, List.head?_cons, if_neg h]

theorem warn_eq
    (style : Style)
    (h : (Event.warned d).IsPlaced) :
    r.warn style d = (Event.warned d).text style r.registry.head? := by
  have hmark : ¬ (Severity.warning = .error ∧ d.isInternal = true) := by
    simp
  simp only [warn, report, header_eq, if_neg hmark, String.append_empty, Event.text]
  exact congrArg _ (below_eq style .magenta h.1 h.2)

theorem report_error_eq
    (style : Style)
    (h : (Event.thrown d).IsPlaced) :
    r.report style .error d = (Event.thrown d).text style r.registry.head? := by
  simp only [report, header_eq, true_and, Event.text]
  exact congrArg _ (below_eq style .red h.1 h.2)

end Reports

section Steps

variable {style : Style} {fatal : Bool}

/-- What comes of events that take place after some others, and end the run or not. -/
def told (style : Style) (fatal : Bool) (past events : List Event)
    (exit : Option (Option Int)) : Reported :=
  ⟨Event.texts style fatal past events, exit, ⟨fatal, replay fatal (past ++ events)⟩⟩

theorem Event.texts_append
    (past first second : List Event) :
    texts style fatal past (first ++ second) =
      texts style fatal past first ++ texts style fatal (past ++ first) second := by
  induction first generalizing past with
  | nil => simp [texts]
  | cons e first ih => simp [texts, ih, String.append_assoc]

/-- Events one after the other. -/
theorem told_append
    (past first second : List Event) (exit : Option (Option Int)) :
    told style fatal past (first ++ second) exit =
      ⟨Event.texts style fatal past first ++
        (told style fatal (past ++ first) second exit).output,
        (told style fatal (past ++ first) second exit).exit,
        (told style fatal (past ++ first) second exit).reporter⟩ := by
  simp only [told, Event.texts_append, List.append_assoc]

theorem throw_replay
    {d : Diagnostic}
    (past : List Event)
    (h : (Event.thrown d).IsPlaced) :
    throw ⟨fatal, replay fatal past⟩ style d =
      told style fatal past [.thrown d] (d.exit? fatal) := by
  have hreport : report ⟨fatal, replay fatal past⟩ style .error d =
      Event.texts style fatal past [.thrown d] := by
    rw [report_error_eq style h, head?_replay]
    simp [Event.texts]
  rw [throw, hreport, told, replay_append, List.foldl_cons, List.foldl_nil]
  by_cases hexit : (fatal || d.isInternal) = true
  · simp [Diagnostic.exit?, Event.registry, hexit]
  · simp [Diagnostic.exit?, Event.registry, hexit]

/-- The end of a guarded block is an error or none. -/
theorem settle_replay
    {ending : Ending}
    (past : List Event)
    (h : ∀ d, ending.thrown? = some d → (Event.thrown d).IsPlaced) :
    settle ⟨fatal, replay fatal past⟩ style ending =
      told style fatal past (ending.thrown?.toList.map .thrown) (ending.exit? fatal) := by
  have hnothing : ∀ exit, told style fatal past [] exit =
      ⟨"", exit, ⟨fatal, replay fatal past⟩⟩ := by
    intro exit
    rw [told, List.append_nil]
    rfl
  cases ending with
  | finished => exact (hnothing none).symm
  | exited code => exact (hnothing (some code)).symm
  | failed d => exact throw_replay past (h d rfl)
  | interrupted => exact throw_replay past (h .interrupted rfl)
  | tooDeep => exact throw_replay past (h .tooDeep rfl)
  | crashed description => exact throw_replay past (h (.crash description) rfl)

mutual

/-- What a step does is told by what takes place in it. -/
theorem perform_replay :
    (step : Step) → (past : List Event) → (∀ e ∈ step.events fatal, e.IsPlaced) →
      perform style ⟨fatal, replay fatal past⟩ step =
        told style fatal past (step.events fatal) (step.exit? fatal)
  | .registerFile path, past, _ => by
      rw [told, replay_append]
      rfl
  | .registerLine path source firstLine, past, _ => by
      rw [told, replay_append]
      rfl
  | .removeLine path, past, _ => by
      rw [told, replay_append]
      rfl
  | .warn d, past, h => by
      have hplaced := h (.warned d) (by simp [Step.events])
      rw [perform, warn_eq style hplaced, head?_replay, told, replay_append]
      simp [Step.events, Step.exit?, Event.texts, Event.registry]
  | .throw d, past, h => by
      have hplaced := h (.thrown d) (by simp [Step.events])
      rw [perform, throw_replay past hplaced]
      simp [Step.events, Step.exit?]
  | .guarded body ending, past, h => by
      rw [Step.events] at h
      have hbody := performAll_replay body past fun e he => h e (List.mem_append_left _ he)
      rw [perform, hbody, Step.events, Step.exit?]
      cases hexit : Step.exitAll? fatal body with
      | some code => simp [told, settle]
      | none =>
          have hplaced : ∀ d, ending.thrown? = some d → (Event.thrown d).IsPlaced :=
            fun d hd => h (.thrown d) (List.mem_append_right _ (by simp [hexit, hd]))
          rw [if_pos rfl, told_append, Option.none_or, ← settle_replay _ hplaced]
          rfl

/-- Steps that go on until one of them ends the run. -/
theorem performAll_replay :
    (steps : List Step) → (past : List Event) →
      (∀ e ∈ Step.eventsAll fatal steps, e.IsPlaced) →
      performAll style ⟨fatal, replay fatal past⟩ steps =
        told style fatal past (Step.eventsAll fatal steps) (Step.exitAll? fatal steps)
  | [], past, _ => by
      rw [told, Step.eventsAll, List.append_nil]
      rfl
  | step :: steps, past, h => by
      rw [Step.eventsAll] at h
      have hstep := perform_replay step past fun e he => h e (List.mem_append_left _ he)
      rw [performAll, hstep, Step.eventsAll, Step.exitAll?]
      cases hexit : step.exit? fatal with
      | some code => simp [told]
      | none =>
          have hsteps := performAll_replay steps (past ++ step.events fatal)
            fun e he => h e (List.mem_append_right _ (by simpa [hexit] using he))
          rw [if_pos rfl, told_append, Option.none_or, ← hsteps]
          rfl

end

/-- The reporter after some steps is told by what took place in them. -/
theorem after_fresh
    (history : List Step)
    (h : ∀ e ∈ history.flatMap (Step.events fatal), e.IsPlaced) :
    (fresh fatal).after style history =
      ⟨fatal, replay fatal (history.flatMap (Step.events fatal))⟩ := by
  induction history using List.reverseRecOn with
  | nil => rfl
  | append_singleton history step ih =>
      simp only [List.flatMap_append, List.flatMap_singleton] at h ⊢
      have hhistory := ih fun e he => h e (List.mem_append_left _ he)
      have hstep : ∀ e ∈ step.events fatal, e.IsPlaced :=
        fun e he => h e (List.mem_append_right _ he)
      rw [after_concat, hhistory, perform_replay step _ hstep]
      rfl

end Steps

/--
A step prints what its events print, each headed by the file that was registered first
since the last error that did not end the run.
-/
theorem perform_follows_history
    (fatal : Bool) (style : Style) (history : List Step) (step : Step)
    (h : ∀ e ∈ (history ++ [step]).flatMap (Step.events fatal), e.IsPlaced) :
    let past := history.flatMap (Step.events fatal)
    let r := (fresh fatal).after style history
    let reported := r.perform style step
    reported.output = Event.texts style fatal past (step.events fatal) ∧
      reported.exit = step.exit? fatal ∧
      reported.reporter =
        ⟨fatal, (step.events fatal).foldl (Event.registry fatal) r.registry⟩ := by
  intro past r reported
  simp only [List.flatMap_append, List.flatMap_singleton] at h
  have hstep : ∀ e ∈ step.events fatal, e.IsPlaced :=
    fun e he => h e (List.mem_append_right _ he)
  have hr : r = ⟨fatal, replay fatal past⟩ :=
    after_fresh history fun e he => h e (List.mem_append_left _ he)
  have hreported : reported = told style fatal past
      (step.events fatal) (step.exit? fatal) := by
    rw [← perform_replay step past hstep, ← hr]
  rw [hreported, told, replay_append, hr]
  exact ⟨rfl, rfl, rfl⟩

/--
An error in a block under the guard is reported about the file registered first since the
last error, and not about the file of the block.
-/
theorem perform_follows_history_nested :
    let d : Diagnostic := .ofFault ⟨.notDeclared "y", ⟨1, 5⟩⟩
    let history : List Step :=
      [.registerFile "a", .throw .interrupted, .registerLine "b" "(" 2,
        .registerLine "a" "x" 1, .removeLine "b", .registerLine "b" "x + y" 7]
    let step : Step := .guarded [.removeLine "a", .guarded [.warn d] .finished] (.failed d)
    (∀ e ∈ (history ++ [step]).flatMap (Step.events false), e.IsPlaced) ∧
      (((fresh false).after .plain history).perform .plain step).output =
        "b:7:5: warning: symbol 'y' was not declared\n  x + y\n      ^\n" ++
          "b:7:5: error: symbol 'y' was not declared\n  x + y\n      ^\n" ∧
      (((fresh false).after .plain history).perform .plain step).exit = none ∧
      (((fresh false).after .plain history).perform .plain step).reporter =
        fresh false := by
  intro d history step
  have hplaced : ∀ e ∈ (history ++ [step]).flatMap (Step.events false), e.IsPlaced := by
    decide
  obtain ⟨houtput, hexit, hreporter⟩ :=
    perform_follows_history false .plain history step hplaced
  refine ⟨hplaced, houtput.trans ?_, hexit.trans ?_, hreporter.trans ?_⟩
  · decide
  · decide
  · decide

end Reporter
end LetLang
