import LetLang.Text.Basic

/-!
# Characters and runs outside string literals

A place of a text is outside string literals if the quotes before it come in pairs. This
module is about the characters that stand in such places, and about the longest runs of
characters of a class there. Where a text is cut between two characters that are not both
of the class, its runs are those of the two parts: `isRun_append_iff`.
-/

namespace LetLang
namespace Text

/-- The text ends outside string literals: its quotes come in pairs. -/
def EndsOutside (cs : List Char) : Prop :=
  cs.count '"' % 2 = 0

/-- The character stands outside string literals in the text, or opens one. -/
def StandsOutside (cs : List Char) (c : Char) : Prop :=
  ∃ before after, cs = before ++ c :: after ∧ EndsOutside before

/-- Characters of a class stand together outside string literals, and neither the character
before them nor the one after them is of the class. -/
def IsRun (p : Char → Bool) (cs run : List Char) : Prop :=
  ∃ before after,
    cs = before ++ (run ++ after) ∧ EndsOutside before ∧
      run ≠ [] ∧ (∀ c ∈ run, p c = true) ∧
    (∀ c ∈ before.getLast?, p c = false) ∧ ∀ c ∈ after.head?, p c = false

/-- Every run of the class is as it should be. -/
def EveryRun (p : Char → Bool) (q : List Char → Prop) (cs : List Char) : Prop :=
  ∀ run, IsRun p cs run → q run

theorem endsOutside_of_not_mem
    {cs : List Char}
    (h : '"' ∉ cs) :
    EndsOutside cs := by
  rw [EndsOutside, List.count_eq_zero.mpr h]

theorem endsOutside_append_iff
    {w : List Char} (rest : List Char)
    (h : EndsOutside w) :
    EndsOutside (w ++ rest) ↔ EndsOutside rest := by
  unfold EndsOutside at *
  rw [List.count_append]
  omega

theorem StandsOutside.mem
    {cs : List Char} {c : Char}
    (h : StandsOutside cs c) :
    c ∈ cs := by
  obtain ⟨before, after, rfl, _⟩ := h
  simp

theorem standsOutside_append_iff
    {w : List Char} (rest : List Char) (c : Char)
    (h : EndsOutside w) :
    StandsOutside (w ++ rest) c ↔ StandsOutside w c ∨ StandsOutside rest c := by
  constructor
  · rintro ⟨before, after, heq, hbefore⟩
    rcases List.append_eq_append_iff.mp heq with ⟨more, rfl, hrest⟩ | ⟨more, hw, hafter⟩
    · exact Or.inr ⟨more, after, hrest, (endsOutside_append_iff more h).mp hbefore⟩
    · cases more with
      | nil => exact Or.inr ⟨[], after, hafter.symm, rfl⟩
      | cons d more =>
          cases hafter
          exact Or.inl ⟨before, more, hw, hbefore⟩
  · rintro (⟨before, after, rfl, hbefore⟩ | ⟨before, after, rfl, hbefore⟩)
    · exact ⟨before, after ++ rest, by simp, hbefore⟩
    · exact ⟨w ++ before, after, by simp, (endsOutside_append_iff before h).mpr hbefore⟩

/-- The last character of a text that ends outside string literals stands outside of them,
or closes one. -/
theorem standsOutside_getLast
    {w : List Char} {c : Char}
    (h : EndsOutside w)
    (hc : c ∈ w.getLast?) :
    StandsOutside w c ∨ c = '"' := by
  obtain ⟨before, rfl⟩ := List.getLast?_eq_some_iff.mp hc
  by_cases hquote : c = '"'
  · exact Or.inr hquote
  · have hbefore : EndsOutside before := by
      rw [EndsOutside, List.count_append, List.count_singleton,
        if_neg (by simpa using hquote)] at h
      exact h
    exact Or.inl ⟨before, [], rfl, hbefore⟩

section Runs

variable {p : Char → Bool} {q : List Char → Prop} {w rest run : List Char}

/-- A run begins with a character that stands outside string literals. -/
theorem IsRun.exists_standsOutside
    (h : IsRun p w run) :
    ∃ c, StandsOutside w c ∧ p c = true := by
  obtain ⟨before, after, rfl, hbefore, hne, hrun, _, _⟩ := h
  cases run with
  | nil => exact absurd rfl hne
  | cons c run =>
      exact ⟨c, ⟨before, run ++ after, rfl, hbefore⟩, hrun c List.mem_cons_self⟩

/-- Where all characters are of the class, they are the only run. -/
theorem isRun_iff_of_forall
    (h : ∀ c ∈ w, p c = true) :
    IsRun p w run ↔ run = w ∧ w ≠ [] := by
  constructor
  · rintro ⟨before, after, rfl, _, hne, _, hlast, hhead⟩
    obtain rfl : before = [] := by
      rw [← List.getLast?_eq_none_iff, Option.eq_none_iff_forall_not_mem]
      intro c hc
      have hclass := h c (List.mem_append_left _ (List.mem_of_getLast? hc))
      rw [hlast c hc] at hclass
      cases hclass
    obtain rfl : after = [] := by
      rw [← List.head?_eq_none_iff, Option.eq_none_iff_forall_not_mem]
      intro c hc
      have hclass :=
        h c (List.mem_append_right _ (List.mem_append_right _ (List.mem_of_mem_head? hc)))
      rw [hhead c hc] at hclass
      cases hclass
    simpa using hne
  · rintro ⟨rfl, hne⟩
    exact ⟨[], [], by simp, rfl, hne, h, by simp, by simp⟩

/-- A run of the first part is a run of the whole text, if the second part does not go on
with it. -/
theorem IsRun.append_right
    (h : IsRun p w run)
    (hcut : ∀ c ∈ w.getLast?, p c = true → ∀ d ∈ rest.head?, p d = false) :
    IsRun p (w ++ rest) run := by
  obtain ⟨before, after, rfl, hbefore, hne, hrun, hlast, hhead⟩ := h
  refine ⟨before, after ++ rest, by simp, hbefore, hne, hrun, hlast, ?_⟩
  intro d hd
  cases after with
  | nil =>
      have hlastRun : run.getLast hne ∈ (before ++ (run ++ [])).getLast? := by
        simp [List.getLast?_append, List.getLast?_eq_some_getLast hne]
      exact hcut _ hlastRun (hrun _ (List.getLast_mem hne)) d hd
  | cons c after => exact hhead d hd

/-- A run of the second part is a run of the whole text, if it does not begin in the
first part. -/
theorem IsRun.append_left
    (h : IsRun p rest run)
    (hquotes : EndsOutside w)
    (hcut : ∀ c ∈ w.getLast?, p c = true → ∀ d ∈ rest.head?, p d = false) :
    IsRun p (w ++ rest) run := by
  obtain ⟨before, after, rfl, hbefore, hne, hrun, hlast, hhead⟩ := h
  refine ⟨w ++ before, after,
    by simp, (endsOutside_append_iff before hquotes).mpr hbefore, hne, hrun, ?_, hhead⟩
  intro c hc
  rw [List.getLast?_append] at hc
  cases before with
  | nil =>
      have hheadRun : run.head hne ∈ ([] ++ (run ++ after)).head? := by
        simp [List.head?_append, List.head?_eq_some_head hne]
      cases hclass : p c with
      | false => rfl
      | true =>
          have hfirst := hcut c hc hclass _ hheadRun
          rw [hrun _ (List.head_mem hne)] at hfirst
          cases hfirst
  | cons d before =>
      rw [List.getLast?_eq_some_getLast (List.cons_ne_nil d before)] at hc hlast
      exact hlast c hc

/-- No run goes across a cut between two characters that are not both of the class. -/
theorem isRun_append_iff
    (hquotes : EndsOutside w)
    (hcut : ∀ c ∈ w.getLast?, p c = true → ∀ d ∈ rest.head?, p d = false) :
    IsRun p (w ++ rest) run ↔ IsRun p w run ∨ IsRun p rest run := by
  constructor
  · rintro ⟨before, after, heq, hbefore, hne, hrun, hlast, hhead⟩
    rcases List.append_eq_append_iff.mp heq with ⟨more, rfl, hrest⟩ | ⟨more, rfl, hmore⟩
    · refine Or.inr ⟨more, after, hrest, (endsOutside_append_iff more hquotes).mp
        hbefore, hne, hrun, ?_, hhead⟩
      intro c hc
      refine hlast c ?_
      rw [Option.mem_def] at hc
      rw [List.getLast?_append, hc]
      rfl
    · rcases List.append_eq_append_iff.mp hmore with ⟨tail, rfl, rfl⟩ | ⟨tail, rfl, rfl⟩
      · refine Or.inl ⟨before, tail, rfl, hbefore, hne, hrun, hlast, ?_⟩
        intro c hc
        refine hhead c ?_
        rw [Option.mem_def] at hc
        rw [List.head?_append, hc]
        rfl
      · -- the run has a part on either side of the cut, one of which is empty
        by_cases hmore : more = []
        · subst hmore
          refine Or.inr ⟨[], after, by simp, rfl, hne, hrun, by simp, hhead⟩
        · by_cases htail : tail = []
          · subst htail
            exact Or.inl ⟨before, [], by simp, hbefore, hne, hrun, hlast, by simp⟩
          · have hleft : more.getLast hmore ∈ (before ++ more).getLast? := by
              simp [List.getLast?_append, List.getLast?_eq_some_getLast hmore]
            have hright : tail.head htail ∈ (tail ++ after).head? := by
              simp [List.head?_append, List.head?_eq_some_head htail]
            have hfirst :=
              hcut _ hleft (hrun _ (List.mem_append_left _ (List.getLast_mem hmore))) _
                hright
            rw [hrun _ (List.mem_append_right _ (List.head_mem htail))] at hfirst
            cases hfirst
  · rintro (h | h)
    · exact h.append_right hcut
    · exact h.append_left hquotes hcut

theorem everyRun_append_iff
    (hquotes : EndsOutside w)
    (hcut : ∀ c ∈ w.getLast?, p c = true → ∀ d ∈ rest.head?, p d = false) :
    EveryRun p q (w ++ rest) ↔ EveryRun p q w ∧ EveryRun p q rest := by
  constructor
  · intro h
    exact ⟨fun run hrun => h run (hrun.append_right hcut),
      fun run hrun => h run (hrun.append_left hquotes hcut)⟩
  · rintro ⟨hw, hrest⟩ run hrun
    rcases (isRun_append_iff hquotes hcut).mp hrun with hrun | hrun
    · exact hw run hrun
    · exact hrest run hrun

/-- A part without characters of the class has no runs, and ends none. -/
theorem everyRun_append_of_absent
    (hp : p '"' = false)
    (hquotes : EndsOutside w)
    (habsent : ∀ c, StandsOutside w c → p c = false) :
    EveryRun p q (w ++ rest) ↔ EveryRun p q rest := by
  have hcut : ∀ c ∈ w.getLast?, p c = true → ∀ d ∈ rest.head?, p d = false := by
    intro c hc hclass
    have hlast : p c = false := by
      rcases standsOutside_getLast hquotes hc with hstands | rfl
      · exact habsent c hstands
      · exact hp
    rw [hlast] at hclass
    cases hclass
  have hw : EveryRun p q w := by
    intro run hrun
    obtain ⟨c, hstands, hclass⟩ := hrun.exists_standsOutside
    rw [habsent c hstands] at hclass
    cases hclass
  rw [everyRun_append_iff hquotes hcut, and_iff_right hw]

/-- A part that has nothing but characters of the class is a run, if the text does not go
on with one. -/
theorem everyRun_append_of_forall
    (hp : p '"' = false)
    (hw : ∀ c ∈ w, p c = true)
    (hrest : ∀ d ∈ rest.head?, p d = false) :
    EveryRun p q (w ++ rest) ↔ (w ≠ [] → q w) ∧ EveryRun p q rest := by
  have hquotes : EndsOutside w := by
    refine endsOutside_of_not_mem fun hmem => ?_
    rw [hw _ hmem] at hp
    cases hp
  rw [everyRun_append_iff hquotes fun _ _ _ => hrest]
  refine and_congr_left fun _ => ?_
  constructor
  · intro h hne
    exact h w ((isRun_iff_of_forall hw).mpr ⟨rfl, hne⟩)
  · intro h run hrun
    obtain ⟨rfl, hne⟩ := (isRun_iff_of_forall hw).mp hrun
    exact h hne

end Runs
end Text
end LetLang
