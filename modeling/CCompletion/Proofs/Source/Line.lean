import CCompletion.Proofs.Source.Position
import CCompletion.Proofs.Source.Typing

/-!
# The line around an offset

An offset cuts the text into whole lines, the two parts of its own line, and the rest from the next newline on. The
start, the end and the number of the line are all read off this cut, so lines that are found by going to the newlines
on both sides of an offset are those that are counted from the start of the text.
-/

namespace CCompletion

variable {t : Text} {k : Nat}

/-- A text around an offset; one behind the end of the text counts as the end. -/
structure LineCut (t : Text) (k : Nat) where
  /-- The lines before that of the offset. -/
  earlier : List Text
  /-- The line of the offset, up to the offset and from there on. -/
  left : Text
  right : Text
  rest : Text
  text_eq : t = Text.closed earlier ++ (left ++ (right ++ rest))
  take_eq : t.take k = Text.closed earlier ++ left
  newline_earlier : ∀ line ∈ earlier, newline ∉ line
  newline_left : newline ∉ left
  newline_right : newline ∉ right
  rest_eq : rest = [] ∨ ∃ others, rest = newline :: others

theorem nonempty_lineCut (t : Text) (k : Nat) : Nonempty (LineCut t k) := by
  obtain ⟨earlier, left, hbefore, hearlier, hleft⟩ := Text.exists_closed_append_eq (t.take k)
  have htext : t = Text.closed earlier ++
      (left ++ ((t.drop k).takeWhile (· ≠ newline) ++ (t.drop k).dropWhile (· ≠ newline))) := by
    rw [List.takeWhile_append_dropWhile, ← List.append_assoc, hbefore, List.take_append_drop]
  have hright : newline ∉ (t.drop k).takeWhile (· ≠ newline) := by
    intro hmem
    have hnewline := List.all_eq_true.mp List.all_takeWhile newline hmem
    exact absurd rfl (of_decide_eq_true hnewline)
  have hrest : (t.drop k).dropWhile (· ≠ newline) = [] ∨
      ∃ others, (t.drop k).dropWhile (· ≠ newline) = newline :: others := by
    have hfirst := List.head?_dropWhile_not (fun u => decide (u ≠ newline)) (t.drop k)
    cases hdrop : (t.drop k).dropWhile (· ≠ newline) with
    | nil => exact .inl rfl
    | cons u others =>
      rw [hdrop] at hfirst
      have hu : u = newline := by simpa using hfirst
      exact .inr ⟨others, by rw [hu]⟩
  exact ⟨⟨earlier, left, _, _, htext, hbefore.symm, hearlier, hleft, hright, hrest⟩⟩

/-- Behind whole lines there is nothing of a further one. -/
theorem lastLine_closed (ls : List Text) : lastLine (Text.closed ls) = [] := by
  obtain rfl | ⟨front, line, rfl⟩ := List.eq_nil_or_concat ls
  · rfl
  · have hclosed : Text.closed (front.concat line) = Text.closed front ++ line ++ [newline] := by
      rw [List.concat_eq_append, Text.closed, List.flatMap_append, List.flatMap_singleton, List.append_assoc]
      rfl
    rw [hclosed, lastLine, List.reverse_append]
    rfl

namespace LineCut

variable (c : LineCut t k)

def line : Text := c.left ++ c.right

theorem newline_line : newline ∉ c.line := by
  rw [line, List.mem_append, not_or]
  exact ⟨c.newline_left, c.newline_right⟩

/-! ## By the newlines on both sides -/

theorem lineStart_eq : lineStart t k = (Text.closed c.earlier).length := by
  have hlast : lastLine (t.take k) = c.left := by
    rw [c.take_eq, lastLine_append c.newline_left, lastLine_closed, List.nil_append]
  have hlength : ((t.take k).reverse.takeWhile (· ≠ newline)).length = (lastLine (t.take k)).length :=
    List.length_reverse.symm
  show (t.take k).length - ((t.take k).reverse.takeWhile (· ≠ newline)).length = _
  rw [hlength, hlast, c.take_eq, List.length_append, Nat.add_sub_cancel]

theorem drop_eq : t.drop k = c.right ++ c.rest := by
  have hsplit := (List.take_append_drop k t).trans c.text_eq
  rw [c.take_eq, List.append_assoc, List.append_right_inj, List.append_right_inj] at hsplit
  exact hsplit

theorem lineEnd_eq : lineEnd t k = (Text.closed c.earlier).length + c.line.length := by
  have hright : (t.drop k).takeWhile (· ≠ newline) = c.right := by
    have hunits : ∀ u ∈ c.right, decide (u ≠ newline) = true := by
      intro u hu
      rw [decide_eq_true_iff]
      rintro rfl
      exact c.newline_right hu
    rw [c.drop_eq, List.takeWhile_append_of_pos hunits]
    obtain hrest | ⟨others, hrest⟩ := c.rest_eq
    · rw [hrest, List.takeWhile_nil, List.append_nil]
    · rw [hrest, List.takeWhile_cons_of_neg (by simp), List.append_nil]
  unfold lineEnd line
  rw [hright, c.take_eq, List.length_append, List.length_append, Nat.add_assoc]

theorem text_eq_line : t = Text.closed c.earlier ++ (c.line ++ c.rest) := by
  rw [line, List.append_assoc]
  exact c.text_eq

theorem currentLine_eq : currentLine t k = c.line := by
  have htake : t.take (lineEnd t k) = Text.closed c.earlier ++ c.line := by
    have htext := congrArg (List.take (lineEnd t k)) c.text_eq_line
    rw [c.lineEnd_eq, List.take_length_add_append, List.take_left] at htext
    rw [c.lineEnd_eq, htext]
  unfold currentLine
  rw [htake, c.lineStart_eq, List.drop_left]

include c in
theorem lineEnd_le : lineEnd t k ≤ t.length := by
  have hlength := congrArg List.length c.text_eq_line
  rw [List.length_append, List.length_append] at hlength
  rw [c.lineEnd_eq]
  omega

/-! ## By the number of the line -/

theorem exists_lines_eq : ∃ later, t.lines = c.earlier ++ c.line :: later := by
  have hlines := congrArg Text.lines c.text_eq_line
  rw [Text.lines_closed_append c.newline_earlier, Text.lines_append c.newline_line] at hlines
  rw [hlines]
  obtain hrest | ⟨others, hrest⟩ := c.rest_eq
  · refine ⟨[], ?_⟩
    rw [hrest, Text.lines_of_notMem List.not_mem_nil, List.modifyHead_cons, List.append_nil]
  · refine ⟨Text.lines others, ?_⟩
    rw [hrest, Text.lines_cons, if_pos rfl, List.modifyHead_cons, List.append_nil]

theorem getElem?_lines : t.lines[c.earlier.length]? = some c.line := by
  obtain ⟨later, hlines⟩ := c.exists_lines_eq
  rw [hlines, List.getElem?_append_right (Nat.le_refl _), Nat.sub_self, List.getElem?_cons_zero]

theorem ofOffset_eq (hk : k ≤ t.length) : Position.ofOffset t k = ⟨c.earlier.length + 1, c.left.length + 1⟩ := by
  rw [Position.ofOffset_eq hk, c.take_eq, Position.atEnd_closed_append c.newline_earlier c.newline_left]

theorem toOffset_start : Position.toOffset ⟨c.earlier.length + 1, 1⟩ t = .ok (Text.closed c.earlier).length := by
  have hline : t.lines[(⟨c.earlier.length + 1, 1⟩ : Position).line - 1]? = some c.line := c.getElem?_lines
  have htake : t.lines.take c.earlier.length = c.earlier := by
    obtain ⟨later, hlines⟩ := c.exists_lines_eq
    rw [hlines, List.take_left]
  rw [Position.toOffset_eq hline]
  show Except.ok (Position.lineOffset (t.lines.take c.earlier.length) + min 0 c.line.length) = _
  rw [htake, Position.lineOffset_eq, Nat.zero_min, Nat.add_zero]

theorem length_left (hk : k ≤ t.length) : (Text.closed c.earlier).length + c.left.length = k := by
  have hlength := congrArg List.length c.take_eq
  rw [List.length_take_of_le hk, List.length_append] at hlength
  exact hlength.symm

end LineCut

/-- Around each offset of a text, the line between two newlines is the one that the position of the offset counts
to; it starts where the first column of this line is, which is as far back as the column says, and ends behind its
own units. Around any offset at all, also one outside of the text, the line is a part of the text without a newline. -/
theorem lineBounds_law (t : Text) :
    (∀ k ≤ t.length, ∃ line column, Position.ofOffset t k = ⟨line + 1, column + 1⟩ ∧
      t.lines[line]? = some (lineBounds t k).line ∧
      Position.toOffset ⟨line + 1, 1⟩ t = .ok (lineBounds t k).start ∧
      (lineBounds t k).start + column = k ∧
      (lineBounds t k).stop = (lineBounds t k).start + (lineBounds t k).line.length) ∧
    ∀ offset : Int, 0 ≤ (lineBounds t offset).start ∧ (lineBounds t offset).start ≤ (lineBounds t offset).stop ∧
      (lineBounds t offset).stop ≤ t.length ∧
      (lineBounds t offset).line = (t.take (lineBounds t offset).stop).drop (lineBounds t offset).start ∧
      newline ∉ (lineBounds t offset).line := by
  constructor
  · intro k hk
    obtain ⟨c⟩ := nonempty_lineCut t k
    have hline : (lineBounds t k).line = c.line := c.currentLine_eq
    have hstart : (lineBounds t k).start = (Text.closed c.earlier).length := c.lineStart_eq
    have hstop : (lineBounds t k).stop = (Text.closed c.earlier).length + c.line.length := c.lineEnd_eq
    refine ⟨c.earlier.length, c.left.length, c.ofOffset_eq hk, ?_, ?_, ?_, ?_⟩
    · rw [hline, c.getElem?_lines]
    · rw [hstart, c.toOffset_start]
    · rw [hstart, c.length_left hk]
    · rw [hstop, hstart, hline]
  · intro offset
    -- an offset before the text counts as its start
    obtain ⟨c⟩ := nonempty_lineCut t offset.toNat
    have hline : (lineBounds t offset).line = c.line := c.currentLine_eq
    have hstart : (lineBounds t offset).start = (Text.closed c.earlier).length := c.lineStart_eq
    have hstop : (lineBounds t offset).stop = (Text.closed c.earlier).length + c.line.length := c.lineEnd_eq
    refine ⟨Nat.zero_le _, ?_, c.lineEnd_le, rfl, ?_⟩
    · rw [hstart, hstop]
      exact Nat.le_add_right _ _
    · rw [hline]
      exact c.newline_line

end CCompletion
