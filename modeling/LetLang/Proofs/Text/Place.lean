import LetLang.Text.Basic

/-!
# Lines, columns and offsets

A line and a column stand for one offset of a text. `Pos.start.after before` is the
position of whatever follows the characters `before`: it lies on a line of the text or
right after the end of one, and its offset is the number of these characters. To see this,
a text is cut into lines that have ended and a last one that has not.
-/

namespace LetLang
namespace Text

/-- Lines that have ended, each with its newline. -/
def ended (ls : List (List Char)) : List Char :=
  ls.flatMap (· ++ ['\n'])

@[simp] theorem ended_nil :
    ended [] = [] := by
  rfl

@[simp] theorem ended_cons
    (l : List Char) (ls : List (List Char)) :
    ended (l :: ls) = l ++ '\n' :: ended ls := by
  simp [ended]

/-- The characters before a place: those of the lines above it, and those to its left. -/
def offset (cs : List Char) (p : Pos) : Nat :=
  (ended ((lines cs).take (p.line - 1))).length + (p.column - 1)

/-- The place is on a line of the text or right after the end of one. -/
structure HasPlace (cs : List Char) (p : Pos) : Prop where
  line_pos : 1 ≤ p.line
  line_le : p.line ≤ (lines cs).length
  column_pos : 1 ≤ p.column
  column_le : p.column ≤ ((lines cs).getD (p.line - 1) []).length + 1

/-- A text is some lines that have ended and the beginning of another one. -/
theorem exists_ended_append
    (cs : List Char) :
    ∃ ls l, cs = ended ls ++ l ∧ (∀ m ∈ ls, '\n' ∉ m) ∧ '\n' ∉ l := by
  induction cs with
  | nil => exact ⟨[], [], rfl, by simp, by simp⟩
  | cons c cs ih =>
      obtain ⟨ls, l, rfl, hls, hl⟩ := ih
      by_cases hc : c = '\n'
      · subst hc
        refine ⟨[] :: ls, l, by simp, ?_, hl⟩
        exact List.forall_mem_cons.mpr ⟨by simp, hls⟩
      · have hne : ¬ '\n' = c := fun h => hc h.symm
        cases ls with
        | nil => exact ⟨[], c :: l, by simp, by simp, by simp [hne, hl]⟩
        | cons m ms =>
            obtain ⟨hm, hms⟩ := List.forall_mem_cons.mp hls
            refine ⟨(c :: m) :: ms, l, by simp, ?_, hl⟩
            exact List.forall_mem_cons.mpr ⟨by simp [hne, hm], hms⟩

theorem lines_ended_append
    {ls : List (List Char)}
    (h : ∀ m ∈ ls, '\n' ∉ m)
    (cs : List Char) :
    lines (ended ls ++ cs) = ls ++ lines cs := by
  induction ls with
  | nil => rfl
  | cons l ls ih =>
      obtain ⟨hl, hls⟩ := List.forall_mem_cons.mp h
      rw [ended_cons, List.append_assoc, List.cons_append, List.cons_append, ← ih hls]
      exact List.splitOn_append_cons_self_of_not_mem hl _

/-- Without a newline, a text only lengthens the first line of what follows it. -/
theorem exists_lines_append
    {l : List Char}
    (h : '\n' ∉ l)
    (cs : List Char) :
    ∃ m ms, lines (l ++ cs) = (l ++ m) :: ms := by
  induction l with
  | nil =>
      obtain ⟨m, ms, hlines⟩ := List.exists_cons_of_ne_nil (lines_ne_nil cs)
      exact ⟨m, ms, hlines⟩
  | cons c l ih =>
      rw [List.mem_cons, not_or] at h
      obtain ⟨m, ms, hlines⟩ := ih h.2
      have hc : (c == '\n') = false := beq_eq_false_iff_ne.mpr fun heq => h.1 heq.symm
      refine ⟨m, ms, ?_⟩
      rw [lines, List.cons_append, List.splitOn_cons_eq_if_modifyHead, hc,
        if_neg Bool.false_ne_true]
      change (lines (l ++ cs)).modifyHead _ = _
      rw [hlines]
      rfl

end Text

namespace Pos

open Text

theorem after_of_not_mem
    {l : List Char}
    (h : '\n' ∉ l)
    (p : Pos) :
    p.after l = ⟨p.line, p.column + l.length⟩ := by
  induction l generalizing p with
  | nil => rfl
  | cons c l ih =>
      rw [List.mem_cons, not_or] at h
      have hc : ¬ c = '\n' := fun heq => h.1 heq.symm
      rw [after_cons, ih h.2, next, if_neg hc]
      simp only [List.length_cons, mk.injEq, true_and]
      omega

theorem after_ended
    {ls : List (List Char)}
    (h : ∀ m ∈ ls, '\n' ∉ m)
    (n : Nat) :
    (Pos.mk n 1).after (ended ls) = ⟨n + ls.length, 1⟩ := by
  induction ls generalizing n with
  | nil => rfl
  | cons l ls ih =>
      obtain ⟨hl, hls⟩ := List.forall_mem_cons.mp h
      rw [ended_cons, after_append, after_of_not_mem hl, after_cons, next,
        if_pos rfl, ih hls]
      simp only [List.length_cons, mk.injEq, and_true]
      omega

/-- The position after some characters counts the lines that have ended, and the characters
of the one that has not. -/
theorem start_after
    {ls : List (List Char)} {l : List Char}
    (hls : ∀ m ∈ ls, '\n' ∉ m)
    (hl : '\n' ∉ l) :
    start.after (ended ls ++ l) = ⟨ls.length + 1, l.length + 1⟩ := by
  rw [after_append, start, after_ended hls, after_of_not_mem hl]
  simp only [mk.injEq]
  omega

/-- The position after some characters, which are given backwards. -/
theorem start_after_reverse
    (ds : List Char) :
    start.after ds.reverse =
      ⟨1 + ds.count '\n', 1 + (ds.takeWhile (· ≠ '\n')).length⟩ := by
  induction ds with
  | nil => rfl
  | cons d ds ih =>
      rw [List.reverse_cons, after_append, ih, after_cons, after_nil, next]
      by_cases hd : d = '\n'
      · subst hd
        simp [Nat.add_comm]
      · rw [if_neg hd, List.count_cons_of_ne hd]
        simp [hd, Nat.add_assoc]

/-- The position after some characters: one line further for each newline, and one column
further for each character after the last of them. -/
theorem start_after_eq
    (cs : List Char) :
    start.after cs =
      ⟨1 + cs.count '\n', 1 + (cs.reverse.takeWhile (· ≠ '\n')).length⟩ := by
  rw [← List.count_reverse, ← start_after_reverse, List.reverse_reverse]

end Pos

namespace Text

/-- The position after some characters of a text is a place of the text. -/
theorem hasPlace_after
    (before rest : List Char) :
    HasPlace (before ++ rest) (Pos.start.after before) := by
  obtain ⟨ls, l, rfl, hls, hl⟩ := exists_ended_append before
  obtain ⟨m, ms, hlines⟩ := exists_lines_append hl rest
  rw [Pos.start_after hls hl]
  have htext : lines (ended ls ++ l ++ rest) = ls ++ (l ++ m) :: ms := by
    rw [List.append_assoc, lines_ended_append hls, hlines]
  constructor
  · exact Nat.succ_le_succ (Nat.zero_le _)
  · rw [htext]
    simp
  · exact Nat.succ_le_succ (Nat.zero_le _)
  · rw [htext]
    simp

/-- The offset of the position after some characters is their number. -/
theorem offset_after
    (before rest : List Char) :
    offset (before ++ rest) (Pos.start.after before) = before.length := by
  obtain ⟨ls, l, rfl, hls, hl⟩ := exists_ended_append before
  rw [Pos.start_after hls hl, offset, List.append_assoc, lines_ended_append hls]
  simp

theorem drop_offset_after
    (before rest : List Char) :
    (before ++ rest).drop (offset (before ++ rest) (Pos.start.after before)) = rest := by
  rw [offset_after, List.drop_left]

/-- A word that follows some characters stands on the line of the position after them, in
its column. -/
theorem isPrefix_line_after
    {w : List Char}
    (hw : '\n' ∉ w)
    (before rest : List Char) :
    w <+: ((lines (before ++ (w ++ rest))).getD
      ((Pos.start.after before).line - 1) []).drop
      ((Pos.start.after before).column - 1) := by
  obtain ⟨ls, l, rfl, hls, hl⟩ := exists_ended_append before
  have hlw : '\n' ∉ l ++ w := by
    simp [hl, hw]
  obtain ⟨m, ms, hlines⟩ := exists_lines_append hlw rest
  have htext : lines (ended ls ++ l ++ (w ++ rest)) = ls ++ (l ++ w ++ m) :: ms := by
    rw [List.append_assoc, lines_ended_append hls, ← hlines, List.append_assoc]
  rw [Pos.start_after hls hl, htext]
  simp

end Text
end LetLang
