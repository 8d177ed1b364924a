import LetLang.Proofs.Report.History
import LetLang.Proofs.Tree.Unescaped

/-!
# Colour in reports

A report is painted piece by piece: the place, the label, the snippets of the message and
the marked part of the line with its caret. If nothing that it quotes has escape
characters, the style decides only the look of the report. What a report leads to, whether
the run ends and which files are registered afterwards, does not depend on the style.
-/

namespace LetLang

open Text

namespace Text

theorem mem_intercalate
    {separator line : List Char} {ls : List (List Char)} {c : Char}
    (hline : line ∈ ls)
    (hc : c ∈ line) :
    c ∈ List.intercalate separator ls := by
  induction ls with
  | nil => cases hline
  | cons first ls ih =>
      cases ls with
      | nil =>
          obtain rfl := List.mem_singleton.mp hline
          simpa using hc
      | cons second ls =>
          rw [List.intercalate_cons_cons]
          rcases List.mem_cons.mp hline with rfl | hline
          · simp [hc]
          · simp [ih hline]

/-- A line has no characters but those of the text. -/
theorem mem_of_mem_lines
    {cs line : List Char} {c : Char}
    (hline : line ∈ lines cs)
    (hc : c ∈ line) :
    c ∈ cs := by
  rw [← intercalate_lines cs]
  exact mem_intercalate hline hc

theorem unescaped_repr
    (n : Nat) :
    Unescaped n.repr := by
  refine Decimal.IsNumeralText.unescaped ?_
  rw [Nat.toList_repr]
  exact Decimal.isNumeralText_toDigits n

theorem unescaped_toString
    (n : Int) :
    Unescaped (toString n) := by
  change Unescaped n.repr
  rw [Int.repr_eq_if]
  split
  · exact unescaped_repr _
  · exact unescaped_append_iff.mpr ⟨by decide, unescaped_repr _⟩

end Text

theorem Ledger.forall_mem_put
    {κ α : Type} [DecidableEq κ] {P : κ × α → Prop} {key : κ} {entry : α} {l : Ledger κ α}
    (hnew : P (key, entry))
    (hold : ∀ e ∈ l, P e) :
    ∀ e ∈ Ledger.put key entry l, P e := by
  induction l with
  | nil => exact List.forall_mem_singleton.mpr hnew
  | cons first rest ih =>
      obtain ⟨hfirst, hrest⟩ := List.forall_mem_cons.mp hold
      rw [Ledger.put]
      split
      · exact List.forall_mem_cons.mpr ⟨hnew, hrest⟩
      · exact List.forall_mem_cons.mpr ⟨hfirst, ih hrest⟩

theorem Message.onlyLook_render
    {m : Message}
    (h : m.Unescaped) :
    OnlyLook fun style => m.render style := by
  induction m with
  | nil => exact .const (by decide)
  | cons piece m ih =>
      obtain ⟨hpiece, hrest⟩ := List.forall_mem_cons.mp h
      have hrender : OnlyLook fun style => piece.render style := by
        cases piece with
        | words text => exact .const hpiece
        | snippet text => exact .paint .bold hpiece
      simp only [render_cons]
      exact hrender.append (ih hrest)

/-- An error as a caller gets it: the snippet that it is about, its place, how much is
marked there, and the text of its message. -/
structure Failure where
  snippet : String
  line : Int
  column : Int
  length : Int
  message : String
deriving DecidableEq, Repr

/-- The same error with a message that has no escape sequences. -/
def Failure.bare (f : Failure) : Failure :=
  { f with message := withoutEscapes f.message }

namespace Diagnostic

/-- The error that a diagnostic makes in a style. -/
def failure (style : Style) (d : Diagnostic) : Failure :=
  ⟨d.snippet, d.line, d.column, d.length, d.message.render style⟩

theorem bare_failure
    {d : Diagnostic}
    (h : d.message.Unescaped) :
    (d.failure .coloured).bare = d.failure .plain := by
  rw [Failure.bare, failure, (Message.onlyLook_render h).withoutEscapes_eq]
  rfl

theorem mem_of_mem_pickLine
    {cs : List Char} {number : Int} {c : Char}
    (h : c ∈ pickLine (lines cs) number) :
    c ∈ cs := by
  unfold pickLine at h
  dsimp only at h
  generalize (if _ < (0 : Int) then _ else _ : Int) = index at h
  split at h
  · cases h
  · rw [List.getD_eq_getElem?_getD] at h
    cases hline : (lines cs)[index.toNat]? with
    | none =>
        rw [hline] at h
        cases h
    | some line =>
        rw [hline] at h
        exact mem_of_mem_lines (List.mem_of_getElem? hline) h

/-- The style decides only the look of the line that is shown below a report. -/
theorem onlyLook_excerpt
    {source : String}
    (d : Diagnostic) (accent : Accent)
    (h : Unescaped source) :
    OnlyLook fun style => d.excerpt style accent source := by
  have hline : ∀ number, '\x1b' ∉ pickLine (lines source.toList) number :=
    fun number hmem => h (mem_of_mem_pickLine hmem)
  unfold excerpt
  generalize d.place (some source) = place
  obtain ⟨number, column⟩ := place
  dsimp only
  have hpart : ∀ part : List Char, part ⊆ pickLine (lines source.toList) number →
      Unescaped (String.ofList part) :=
    fun part hpart => unescaped_ofList_iff.mpr fun hmem => hline number (hpart hmem)
  have hgap : ∀ n, Unescaped (String.ofList (List.replicate n ' ')) := by
    intro n
    refine unescaped_ofList_iff.mpr fun hmem => ?_
    cases List.eq_of_mem_replicate hmem
  have hcaret : ∀ n, Unescaped (String.ofList ('^' :: List.replicate n '~')) := by
    intro n
    refine unescaped_ofList_iff.mpr fun hmem => ?_
    rcases List.mem_cons.mp hmem with hmem | hmem
    · cases hmem
    · cases List.eq_of_mem_replicate hmem
  refine .append (.append
    (.append (.append (.append (.append (.append (.const ?_) ?_) ?_) ?_) ?_) ?_) ?_) ?_
  · decide
  · exact .const (hpart _ (List.take_subset _ _))
  · exact .paint accent
      (hpart _ (List.Subset.trans (List.take_subset _ _) (List.drop_subset _ _)))
  · exact .const (hpart _ (List.drop_subset _ _))
  · exact .const (by decide)
  · exact .const (by decide)
  · exact .const (hgap _)
  · exact .paint accent (hcaret _)

end Diagnostic

/-- What the end of a guarded piece of work throws has a message without
escape characters. -/
def Ending.Unescaped (ending : Ending) : Prop :=
  ∀ d, ending.thrown? = some d → d.message.Unescaped

/-- The error with which a guarded piece of work ends, if any. -/
def Ending.failure? (style : Style) (ending : Ending) : Option Failure :=
  ending.thrown?.map (Diagnostic.failure style)

theorem Ending.Unescaped.failure?_eq
    {ending : Ending}
    (h : ending.Unescaped) :
    ending.failure? .plain = (ending.failure? .coloured).map Failure.bare := by
  unfold Ending.failure?
  cases hthrown : ending.thrown? with
  | none => rfl
  | some d => exact congrArg some (Diagnostic.bare_failure (h d hthrown)).symm

theorem Ending.unescaped_failed
    {d : Diagnostic}
    (h : d.message.Unescaped) :
    (Ending.failed d).Unescaped := by
  rintro d' hd
  cases hd
  exact h

theorem Ending.unescaped_ofFault
    {fault : Fault}
    (h : fault.Unescaped) :
    (Ending.failed (.ofFault fault)).Unescaped := by
  exact unescaped_failed h

namespace Reporter

/-- No path and no source in the registry has an escape character. -/
def Unescaped (r : Reporter) : Prop :=
  ∀ entry ∈ r.registry, Text.Unescaped entry.1 ∧
    ∀ listing ∈ entry.2, Text.Unescaped listing.source

variable {r : Reporter} {d : Diagnostic}

theorem Unescaped.listing
    {listing : Listing}
    (hr : r.Unescaped)
    (h : r.listing? = some listing) :
    Text.Unescaped listing.source := by
  unfold listing? at h
  cases hregistry : r.registry with
  | nil =>
      rw [hregistry] at h
      cases h
  | cons entry rest =>
      rw [hregistry] at h
      exact (hr entry (hregistry ▸ List.mem_cons_self)).2 listing h

theorem onlyLook_header
    (d : Diagnostic)
    (hr : r.Unescaped) :
    OnlyLook fun style => r.header style d := by
  unfold header
  cases hregistry : r.registry with
  | nil => exact .const (by decide)
  | cons entry rest =>
      obtain ⟨path, listing⟩ := entry
      have hpath : Text.Unescaped path := (hr _ (hregistry ▸ List.mem_cons_self)).1
      have hbare : Text.Unescaped (path ++ ": ") :=
        unescaped_append_iff.mpr ⟨hpath, by decide⟩
      cases listing with
      | none => exact .paint .bold hbare
      | some listing =>
          dsimp only
          generalize d.place (some listing.source) = place
          obtain ⟨line, column⟩ := place
          dsimp only
          split
          · exact .paint .bold hbare
          · refine .paint .bold ?_
            simp only [unescaped_append_iff, hpath, unescaped_toString, and_true, true_and]
            decide

theorem onlyLook_report
    (severity : Severity)
    (hr : r.Unescaped)
    (hd : d.message.Unescaped) :
    OnlyLook fun style => r.report style severity d := by
  unfold report
  dsimp only
  refine .append
    (.append (.append (.append (.append (onlyLook_header d hr) ?_) (.paint _ ?_))
    (Message.onlyLook_render hd)) ?_) ?_
  · split
    · exact .paint _ (by decide)
    · exact .const (by decide)
  · cases severity <;> decide
  · exact .const (by decide)
  · cases hshown : r.shownSource? d with
    | none => exact .const (by decide)
    | some source =>
        have hsource : Text.Unescaped source := by
          unfold shownSource? at hshown
          split at hshown
          · cases hshown
          · rename_i listing hlisting
            split at hshown
            · cases hshown
              exact hr.listing hlisting
            · cases hshown
        exact (d.onlyLook_excerpt _ hsource).append (.const (by decide))

theorem onlyLook_throw
    (hr : r.Unescaped)
    (hd : d.message.Unescaped) :
    OnlyLook fun style => (r.throw style d).output := by
  have houtput : ∀ style, (r.throw style d).output = r.report style .error d := by
    intro style
    unfold throw
    dsimp only
    split <;> rfl
  simp only [houtput]
  exact onlyLook_report .error hr hd

/-- What follows from an error does not depend on the style. -/
theorem throw_eq
    (r : Reporter) (d : Diagnostic) (style style' : Style) :
    (r.throw style d).exit = (r.throw style' d).exit ∧
      (r.throw style d).reporter = (r.throw style' d).reporter := by
  unfold throw
  dsimp only
  split
  · exact ⟨rfl, rfl⟩
  · exact ⟨rfl, rfl⟩

theorem unescaped_throw
    (d : Diagnostic) (style : Style)
    (hr : r.Unescaped) :
    (r.throw style d).reporter.Unescaped := by
  unfold throw
  dsimp only
  split
  · exact hr
  · exact List.forall_mem_nil _

section Settle

variable {ending : Ending}

/-- The end of a guarded piece of work is an error or leaves everything as it is. -/
theorem settle_cases
    (r : Reporter) (ending : Ending) :
    (∃ d, ending.thrown? = some d ∧ ∀ style, r.settle style ending = r.throw style d) ∨
      ∃ exit, ∀ style, r.settle style ending = ⟨"", exit, r⟩ := by
  cases ending with
  | finished => exact .inr ⟨none, fun _ => rfl⟩
  | exited code => exact .inr ⟨some code, fun _ => rfl⟩
  | failed d => exact .inl ⟨d, rfl, fun _ => rfl⟩
  | interrupted => exact .inl ⟨.interrupted, rfl, fun _ => rfl⟩
  | tooDeep => exact .inl ⟨.tooDeep, rfl, fun _ => rfl⟩
  | crashed description => exact .inl ⟨.crash description, rfl, fun _ => rfl⟩

theorem onlyLook_settle
    (hr : r.Unescaped)
    (hending : ending.Unescaped) :
    OnlyLook fun style => (r.settle style ending).output := by
  rcases r.settle_cases ending with ⟨d, hthrown, hsettle⟩ | ⟨exit, hsettle⟩
  · simp only [hsettle]
    exact onlyLook_throw hr (hending d hthrown)
  · simp only [hsettle]
    exact .const (by decide)

theorem settle_eq
    (r : Reporter) (ending : Ending) (style style' : Style) :
    (r.settle style ending).exit = (r.settle style' ending).exit ∧
      (r.settle style ending).reporter = (r.settle style' ending).reporter := by
  rcases r.settle_cases ending with ⟨d, _, hsettle⟩ | ⟨exit, hsettle⟩
  · rw [hsettle, hsettle]
    exact throw_eq r d style style'
  · rw [hsettle, hsettle]
    exact ⟨rfl, rfl⟩

theorem unescaped_settle
    (ending : Ending) (style : Style)
    (hr : r.Unescaped) :
    (r.settle style ending).reporter.Unescaped := by
  rcases r.settle_cases ending with ⟨d, _, hsettle⟩ | ⟨exit, hsettle⟩
  · rw [hsettle]
    exact unescaped_throw d style hr
  · rw [hsettle]
    exact hr

end Settle

variable {path : String}

theorem Unescaped.registerFile
    (hr : r.Unescaped)
    (hpath : Text.Unescaped path) :
    (r.registerFile path).Unescaped := by
  exact Ledger.forall_mem_put ⟨hpath, by simp⟩ hr

theorem Unescaped.registerLine
    {source : String}
    (firstLine : Int)
    (hr : r.Unescaped)
    (hpath : Text.Unescaped path)
    (hsource : Text.Unescaped source) :
    (r.registerLine path source firstLine).Unescaped := by
  exact Ledger.forall_mem_put ⟨hpath, by simpa using hsource⟩ hr

end Reporter
end LetLang
