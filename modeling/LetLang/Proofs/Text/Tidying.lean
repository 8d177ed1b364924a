import LetLang.Proofs.Text.Lines

/-!
# Blanks at the ends of lines

`tidy` takes away the blanks at the end of every line, and with them the lines that are all
blank. Lines that are trimmed one by one, each with what is left of the lines before it,
are a tidy text in the end. Nothing else is lost: what was kept apart by blanks is kept
apart by a newline at least.
-/

namespace LetLang
namespace Text

/-- Nothing but blanks follows on the line. -/
def endsLine (cs : List Char) : Bool :=
  (cs.takeWhile (· ≠ '\n')).all isBlank

/-- Takes away the blanks that are followed by nothing but blanks on their line. A newline
before a blank line is one of them. -/
def tidy : List Char → List Char
  | [] => []
  | c :: cs => if isBlank c && endsLine cs then tidy cs else c :: tidy cs

theorem tidy_cons_of_ink
    {c : Char} (cs : List Char)
    (h : isBlank c = false) :
    tidy (c :: cs) = c :: tidy cs := by
  simp [tidy, h]

theorem endsLine_cons_of_ink
    {c : Char} (cs : List Char)
    (h : isBlank c = false) :
    endsLine (c :: cs) = false := by
  have hne : c ≠ '\n' := by
    rintro rfl
    cases h
  simp [endsLine, hne, h]

theorem endsLine_cons
    {c : Char} (cs : List Char)
    (h : c ≠ '\n') :
    endsLine (c :: cs) = (isBlank c && endsLine cs) := by
  simp [endsLine, h]

/-- What follows on the line does not depend on the next line. -/
theorem endsLine_append_newline
    (cs ds : List Char) :
    endsLine (cs ++ '\n' :: ds) = endsLine cs := by
  induction cs with
  | nil => rfl
  | cons c cs ih =>
      by_cases hc : c = '\n'
      · subst hc
        rfl
      · rw [List.cons_append, endsLine_cons _ hc, endsLine_cons _ hc, ih]

/-- Lines can be made tidy apart from each other. -/
theorem tidy_append_newline
    (cs ds : List Char) :
    tidy (cs ++ '\n' :: ds) = tidy cs ++ tidy ('\n' :: ds) := by
  induction cs with
  | nil => rfl
  | cons c cs ih =>
      rw [List.cons_append, tidy, tidy, endsLine_append_newline, ih]
      split
      · rfl
      · rfl

theorem tidy_append_of_ink
    {w : List Char} (cs : List Char)
    (h : ∀ c ∈ w, isBlank c = false) :
    tidy (w ++ cs) = w ++ tidy cs := by
  induction w with
  | nil => rfl
  | cons c w ih =>
      obtain ⟨hc, hw⟩ := List.forall_mem_cons.mp h
      rw [List.cons_append, tidy_cons_of_ink _ hc, ih hw, List.cons_append]

theorem tidy_sublist
    (cs : List Char) :
    (tidy cs).Sublist cs := by
  induction cs with
  | nil => exact List.Sublist.slnil
  | cons c cs ih =>
      rw [tidy]
      split
      · exact ih.cons c
      · exact ih.cons_cons c

/-- If nothing but blanks follows on the line, then what is left starts with the
next line. -/
theorem head?_tidy_of_endsLine
    {cs : List Char}
    (h : endsLine cs = true) :
    ∀ c ∈ (tidy cs).head?, c = '\n' := by
  induction cs with
  | nil => simp [tidy]
  | cons d cs ih =>
      by_cases hd : d = '\n'
      · subst hd
        rw [tidy]
        split
        · rename_i hdropped
          rw [Bool.and_eq_true] at hdropped
          exact ih hdropped.2
        · simp
      · rw [endsLine_cons _ hd] at h
        rw [tidy, if_pos h]
        rw [Bool.and_eq_true] at h
        exact ih h.2

/-- A text starts as before, or it starts with the next line. -/
theorem head?_tidy
    (cs : List Char) :
    ∀ c ∈ (tidy cs).head?, c ∈ cs.head? ∨ c = '\n' := by
  cases cs with
  | nil => simp [tidy]
  | cons d cs =>
      intro c hc
      rw [tidy] at hc
      split at hc
      · rename_i hdropped
        rw [Bool.and_eq_true] at hdropped
        exact Or.inr (head?_tidy_of_endsLine hdropped.2 c hc)
      · exact Or.inl hc

/-- What is no blank and stands at the beginning has stood there before. -/
theorem exists_of_tidy_eq_append
    {cs w rest : List Char}
    (h : tidy cs = w ++ rest)
    (hw : ∀ c ∈ w, isBlank c = false) :
    ∃ more, cs = w ++ more ∧ tidy more = rest := by
  induction w generalizing cs with
  | nil => exact ⟨cs, rfl, h⟩
  | cons d w ih =>
      obtain ⟨hd, hink⟩ := List.forall_mem_cons.mp hw
      cases cs with
      | nil => cases h
      | cons e cs =>
          rw [tidy] at h
          split at h
          · rename_i hdropped
            rw [Bool.and_eq_true] at hdropped
            have hnewline := head?_tidy_of_endsLine hdropped.2 d (by rw [h]; rfl)
            rw [hnewline] at hd
            cases hd
          · obtain ⟨rfl, htidy⟩ := List.cons.inj h
            obtain ⟨more, rfl, hmore⟩ := ih htidy hink
            exact ⟨more, rfl, hmore⟩

/-- Only from blanks nothing is left. -/
theorem endsLine_of_tidy_eq_nil
    {cs : List Char}
    (h : tidy cs = []) :
    endsLine cs = true := by
  induction cs with
  | nil => rfl
  | cons c cs ih =>
      rw [tidy] at h
      split at h
      · rename_i hdropped
        by_cases hc : c = '\n'
        · subst hc
          rfl
        · rwa [endsLine_cons _ hc]
      · cases h

theorem endsInInk_tidy
    (cs : List Char) :
    EndsInInk (tidy cs) := by
  induction cs with
  | nil => simp [tidy, EndsInInk]
  | cons c cs ih =>
      rw [tidy]
      split
      · exact ih
      · rename_i hkept
        cases htidy : tidy cs with
        | cons d ds =>
            rw [htidy] at ih
            exact ih.append [c] (List.cons_ne_nil d ds)
        | nil =>
            rw [endsLine_of_tidy_eq_nil htidy, Bool.and_true] at hkept
            intro e he
            cases he
            simpa using hkept

theorem dropTrailing_append
    (p : Char → Bool) (cs ds : List Char) :
    dropTrailing p (cs ++ ds) = if dropTrailing p ds = [] then dropTrailing p cs
      else cs ++ dropTrailing p ds := by
  simp only [dropTrailing, List.reverse_append, List.dropWhile_append, List.isEmpty_iff,
    List.reverse_eq_nil_iff]
  split
  · rfl
  · rw [List.reverse_append, List.reverse_reverse]

theorem EndsInInk.dropTrailing_append
    {cs : List Char}
    (h : EndsInInk cs)
    (ds : List Char) :
    dropTrailing isBlank (cs ++ ds) = cs ++ dropTrailing isBlank ds := by
  rw [Text.dropTrailing_append, h.dropTrailing_eq]
  split
  · rename_i hnil
    rw [hnil, List.append_nil]
  · rfl

/-- A line is tidy when it is trimmed, and so is a line with the newline before it. -/
theorem tidy_eq_dropTrailing
    {cs : List Char}
    (h : '\n' ∉ cs.tail) :
    tidy cs = dropTrailing isBlank cs := by
  induction cs with
  | nil => rfl
  | cons c cs ih =>
      have hcs : '\n' ∉ cs := h
      have htidy := ih fun hmem => hcs (List.mem_of_mem_tail hmem)
      rw [← List.singleton_append, dropTrailing_append, ← htidy,
        List.singleton_append, tidy]
      by_cases hnil : tidy cs = []
      · rw [if_pos hnil, hnil, endsLine_of_tidy_eq_nil hnil, Bool.and_true]
        cases hc : isBlank c with
        | true => simp [dropTrailing, hc]
        | false => simp [dropTrailing, hc]
      · have hline : endsLine cs = false := by
          by_contra hline
          obtain ⟨d, ds, hds⟩ := List.exists_cons_of_ne_nil hnil
          have hd :=
            head?_tidy_of_endsLine (Bool.of_not_eq_false hline) d (by rw [hds]; rfl)
          refine hcs ((tidy_sublist cs).subset ?_)
          rw [hds, hd]
          exact List.mem_cons_self
        rw [if_neg hnil, hline, Bool.and_false]
        rfl

/-- A line that is joined to a tidy text and trimmed with it leaves a tidy text. -/
theorem dropTrailing_tidy_append
    (cs : List Char) {line : List Char}
    (h : '\n' ∉ line) :
    dropTrailing isBlank (tidy cs ++ '\n' :: line) = tidy (cs ++ '\n' :: line) := by
  have hline : '\n' ∉ ('\n' :: line).tail := h
  rw [(endsInInk_tidy cs).dropTrailing_append, tidy_append_newline,
    tidy_eq_dropTrailing hline]

end Text
end LetLang
