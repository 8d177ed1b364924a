import LetLang.Proofs.Text.Place
import LetLang.Proofs.Token.Spelling
import LetLang.Text.Basic
import Mathlib.Data.List.TakeWhile
import Mathlib.Data.List.Basic

/-!
# Lines of input

What trimming leaves of a line, and what becomes of lines that are joined by newlines: they
are the lines of the joined text.
-/

namespace LetLang
namespace Text

/-- The text does not end in a blank. -/
def EndsInInk (cs : List Char) : Prop :=
  ∀ c ∈ cs.getLast?, isBlank c = false

theorem endsInInk_dropTrailing
    (cs : List Char) :
    EndsInInk (dropTrailing isBlank cs) := by
  intro c hc
  rw [dropTrailing, List.getLast?_reverse] at hc
  simpa [Option.mem_def.mp hc] using List.head?_dropWhile_not isBlank cs.reverse

theorem EndsInInk.dropTrailing_eq
    {cs : List Char}
    (h : EndsInInk cs) :
    dropTrailing isBlank cs = cs := by
  rw [dropTrailing]
  cases hcs : cs.reverse with
  | nil => rw [List.dropWhile_nil, ← hcs, List.reverse_reverse]
  | cons c ds =>
      have hc : isBlank c = false := by
        refine h c ?_
        rw [← List.head?_reverse, hcs]
        rfl
      rw [List.dropWhile_cons_of_neg (by simp [hc]), ← hcs, List.reverse_reverse]

theorem EndsInInk.trimEnd_eq
    {s : String}
    (h : EndsInInk s.toList) :
    trimEnd s = s := by
  rw [trimEnd, h.dropTrailing_eq, String.ofList_toList]

theorem EndsInInk.append
    {cs : List Char} (ds : List Char)
    (h : EndsInInk cs)
    (hcs : cs ≠ []) :
    EndsInInk (ds ++ cs) := by
  intro c hc
  rw [List.getLast?_append_of_ne_nil ds hcs] at hc
  exact h c hc

theorem EndsInInk.right
    (cs : List Char) {ds : List Char}
    (h : EndsInInk (cs ++ ds)) :
    EndsInInk ds := by
  intro c hc
  cases ds with
  | nil => cases hc
  | cons d ds =>
      refine h c ?_
      rw [List.getLast?_append_of_ne_nil cs (List.cons_ne_nil d ds)]
      exact hc

/-- Nothing is left of a text that is trimmed if it is all blank. -/
theorem trim_eq_empty_iff
    {s : String} :
    trim s = "" ↔ ∀ c ∈ s.toList, isBlank c = true := by
  have hnil : trim s = "" ↔ dropTrailing isBlank (s.toList.dropWhile isBlank) = [] := by
    rw [trim, ← String.toList_inj, String.toList_ofList]
    rfl
  rw [hnil, dropTrailing, List.reverse_eq_nil_iff, List.dropWhile_eq_nil_iff]
  constructor
  · intro h c hc
    rw [← List.takeWhile_append_dropWhile (p := isBlank) (l := s.toList)] at hc
    rcases List.mem_append.mp hc with hc | hc
    · exact List.all_eq_true.mp List.all_takeWhile c hc
    · exact h c (List.mem_reverse.mpr hc)
  · intro h c hc
    exact h c ((List.dropWhile_sublist isBlank).subset (List.mem_reverse.mp hc))

/-- If a text does not end in a blank, nothing is left of its end only if its end
is empty. -/
theorem EndsInInk.trim_eq_empty_iff
    {cs ds : List Char}
    (h : EndsInInk (cs ++ ds)) :
    trim (String.ofList ds) = "" ↔ ds = [] := by
  rw [Text.trim_eq_empty_iff, String.toList_ofList]
  constructor
  · intro hblank
    by_contra hne
    have hlast := right cs h _ (List.getLast?_eq_some_getLast hne)
    rw [hblank _ (List.getLast_mem hne)] at hlast
    cases hlast
  · rintro rfl c hc
    cases hc

theorem endsInInk_trim
    (line : String) :
    EndsInInk (trim line).toList := by
  rw [trim, String.toList_ofList]
  exact endsInInk_dropTrailing _

theorem mem_of_mem_trim
    {line : String} {c : Char}
    (h : c ∈ (trim line).toList) :
    c ∈ line.toList := by
  rw [trim, String.toList_ofList, dropTrailing, List.mem_reverse] at h
  exact (List.dropWhile_sublist _).subset
    (List.mem_reverse.mp ((List.dropWhile_sublist _).subset h))

/-- A line is joined to lines before it by a newline. -/
theorem intercalate_concat
    {ls : List String}
    (h : ls ≠ [])
    (l : String) :
    "\n".intercalate (ls ++ [l]) = "\n".intercalate ls ++ "\n" ++ l := by
  induction ls with
  | nil => exact absurd rfl h
  | cons m ms ih =>
      cases ms with
      | nil => rw [List.singleton_append, String.intercalate_cons_cons,
          String.intercalate_singleton, String.intercalate_singleton]
      | cons k ks =>
          rw [List.cons_append, List.cons_append, String.intercalate_cons_cons,
            String.intercalate_cons_cons, ← List.cons_append, ih (List.cons_ne_nil k ks)]
          simp only [String.append_assoc]

/-- Lines that are joined are the lines of the text. -/
theorem lines_intercalate
    {ls : List String}
    (hne : ls ≠ [])
    (hls : ∀ l ∈ ls, '\n' ∉ l.toList) :
    lines ("\n".intercalate ls).toList = ls.map String.toList := by
  rw [String.toList_intercalate]
  refine List.splitOn_intercalate '\n' ?_ (by simpa using hne)
  intro m hm
  obtain ⟨l, hl, rfl⟩ := List.mem_map.mp hm
  exact hls l hl

/-- A newline stands between two lines that are joined, and nowhere else. -/
theorem count_newline_intercalate
    {ls : List String}
    (hne : ls ≠ [])
    (hls : ∀ l ∈ ls, '\n' ∉ l.toList) :
    ("\n".intercalate ls).toList.count '\n' + 1 = ls.length := by
  induction ls with
  | nil => exact absurd rfl hne
  | cons l ls ih =>
      obtain ⟨hl, hrest⟩ := List.forall_mem_cons.mp hls
      cases ls with
      | nil => simp [List.count_eq_zero.mpr hl]
      | cons m ms =>
          have hcount := ih (List.cons_ne_nil m ms) hrest
          have hnewline : "\n".toList.count '\n' = 1 := by
            rfl
          rw [String.intercalate_cons_cons, String.toList_append, String.toList_append,
            List.count_append, List.count_append, List.count_eq_zero.mpr hl, hnewline,
            List.length_cons]
          omega

/-- Lines that do not end in a blank are joined to a text that does not either. -/
theorem endsInInk_intercalate
    {ls : List String}
    (hls : ∀ l ∈ ls, l ≠ "" ∧ EndsInInk l.toList) :
    EndsInInk ("\n".intercalate ls).toList := by
  rcases List.eq_nil_or_concat ls with rfl | ⟨ms, l, rfl⟩
  · intro c hc
    cases hc
  · obtain ⟨hne, hink⟩ := hls l (by simp)
    have hl : l.toList ≠ [] := fun hnil => hne (String.toList_inj.mp hnil)
    by_cases hms : ms = []
    · subst hms
      simpa using hink
    · rw [List.concat_eq_append, intercalate_concat hms, String.toList_append]
      exact hink.append _ hl

end Text
end LetLang
