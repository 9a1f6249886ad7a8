import CCompletion.Text.Basic
import Mathlib.Data.List.Basic

/-!
# Lines

A text is its lines one after the other, each but the last with its newline, and it is read back into these lines.
What follows whole lines changes none of them.
-/

namespace CCompletion.Text

variable {t s line last : Text} {ls others : List Text} {n : Nat}

/-- Lines one after the other, each with its newline. -/
def closed (ls : List Text) : Text := ls.flatMap fun line => line ++ [newline]

theorem closed_cons (line : Text) (ls : List Text) : closed (line :: ls) = line ++ newline :: closed ls := by
  rw [closed, List.flatMap_cons, List.append_assoc, List.singleton_append, closed]

theorem lines_of_notMem (h : newline ∉ t) : t.lines = [t] := List.splitOn_eq_singleton h

theorem lines_cons (u : CodeUnit) (t : Text) :
    lines (u :: t) = if u = newline then [] :: lines t else (lines t).modifyHead (u :: ·) := by
  rw [lines, List.splitOn_cons_eq_if_modifyHead]
  simp only [beq_iff_eq]
  rfl

theorem exists_lines_eq_cons (t : Text) : ∃ first others, t.lines = first :: others :=
  List.exists_cons_of_ne_nil (List.splitOn_ne_nil newline t)

/-- No line has a newline in it. -/
theorem newline_notMem_of_mem_lines (h : line ∈ t.lines) : newline ∉ line := by
  induction t generalizing line with
  | nil =>
    rw [lines, List.splitOn_nil, List.mem_singleton] at h
    rw [h]
    exact List.not_mem_nil
  | cons u t ih =>
    obtain ⟨first, others, hlines⟩ := exists_lines_eq_cons t
    rw [lines_cons] at h
    split at h
    · obtain rfl | h := List.mem_cons.mp h
      · exact List.not_mem_nil
      · exact ih h
    · rename_i hu
      rw [hlines, List.modifyHead_cons] at h
      obtain rfl | h := List.mem_cons.mp h
      · rw [List.mem_cons, not_or]
        exact ⟨Ne.symm hu, ih (hlines ▸ List.mem_cons_self)⟩
      · exact ih (hlines ▸ List.mem_cons_of_mem first h)

/-! ## Texts put together from lines -/

theorem lines_closed_append (h : ∀ line ∈ ls, newline ∉ line) (rest : Text) :
    (closed ls ++ rest).lines = ls ++ rest.lines := by
  induction ls with
  | nil => rfl
  | cons line ls ih =>
    rw [List.forall_mem_cons] at h
    rw [closed_cons, List.append_assoc, List.cons_append, lines, List.splitOn_append_cons_self_of_not_mem h.1,
      ← lines, ih h.2, List.cons_append]

/-- A text without a newline goes on to the first line of what follows it. -/
theorem lines_append (h : newline ∉ s) (rest : Text) : (s ++ rest).lines = rest.lines.modifyHead (s ++ ·) := by
  induction s with
  | nil =>
    obtain ⟨first, others, hlines⟩ := exists_lines_eq_cons rest
    rw [List.nil_append, hlines, List.modifyHead_cons, List.nil_append]
  | cons u s ih =>
    rw [List.mem_cons, not_or] at h
    obtain ⟨first, others, hlines⟩ := exists_lines_eq_cons rest
    rw [List.cons_append, lines_cons, if_neg (Ne.symm h.1), ih h.2, hlines]
    rfl

/-! ## Texts taken apart into lines -/

theorem intercalate_append (ls : List Text) (h : others ≠ []) :
    [newline].intercalate (ls ++ others) = closed ls ++ [newline].intercalate others := by
  induction ls with
  | nil => rfl
  | cons line ls ih =>
    rw [List.cons_append, List.intercalate_cons_of_ne_nil (List.append_ne_nil_of_right_ne_nil ls h), ih, closed_cons,
      List.append_assoc, List.append_assoc, List.singleton_append, List.cons_append]

theorem intercalate_lines (t : Text) : [newline].intercalate t.lines = t := List.intercalate_splitOn newline

/-- The last line has no newline behind it. -/
theorem closed_append_of_lines_eq (h : t.lines = ls ++ [last]) : closed ls ++ last = t := by
  have ht := intercalate_lines t
  rwa [h, intercalate_append ls (List.cons_ne_nil _ _), List.intercalate_singleton] at ht

/-- A text is some whole lines and the rest of a line. -/
theorem exists_closed_append_eq (t : Text) :
    ∃ ls last, closed ls ++ last = t ∧ (∀ line ∈ ls, newline ∉ line) ∧ newline ∉ last := by
  obtain ⟨ls, last, hlines⟩ : ∃ ls last, t.lines = ls ++ [last] :=
    ⟨_, _, (List.dropLast_append_getLast (List.splitOn_ne_nil newline t)).symm⟩
  have hnewline : ∀ line ∈ ls ++ [last], newline ∉ line := fun line hline =>
    newline_notMem_of_mem_lines (hlines ▸ hline)
  rw [List.forall_mem_append, List.forall_mem_singleton] at hnewline
  exact ⟨ls, last, closed_append_of_lines_eq hlines, hnewline.1, hnewline.2⟩

/-- In front of a line stand the lines before it, each with its newline. -/
theorem exists_of_lines_getElem? (h : t.lines[n]? = some line) :
    ∃ rest, t = closed (t.lines.take n) ++ (line ++ rest) := by
  have ht := intercalate_lines t
  obtain ⟨hn, hline⟩ := List.getElem?_eq_some_iff.mp h
  have hsplit : t.lines = t.lines.take n ++ line :: t.lines.drop (n + 1) := by
    rw [← hline, ← List.drop_eq_getElem_cons hn, List.take_append_drop]
  rw [hsplit, intercalate_append _ (List.cons_ne_nil _ _)] at ht
  cases hrest : t.lines.drop (n + 1) with
  | nil =>
    rw [hrest, List.intercalate_singleton] at ht
    exact ⟨[], by rw [List.append_nil, ht]⟩
  | cons next others =>
    rw [hrest, List.intercalate_cons_cons, List.append_assoc] at ht
    exact ⟨_, ht.symm⟩

end CCompletion.Text
