import CCompletion.Proofs.Number.Decimal
import CCompletion.Proofs.Source.Context
import CCompletion.Proofs.Text.Lines

/-!
# Positions and offsets

The offsets of a text and the positions in it stand for each other, in the same order, and a position that is printed
is read back. Other positions on a line of the text lead to its end, and only those below the last line lead
nowhere.
-/

namespace CCompletion

namespace Position

variable {t line last : Text} {ls : List Text} {k m n : Nat} {p q : Position}

/-! ## Where lines start -/

theorem lineOffset_eq (ls : List Text) : lineOffset ls = (Text.closed ls).length := by
  induction ls with
  | nil => rfl
  | cons line ls ih =>
    show line.length + 1 + lineOffset ls = _
    rw [Text.closed_cons, List.length_append, List.length_cons, ih]
    omega

theorem lineOffset_append (ls others : List Text) : lineOffset (ls ++ others) = lineOffset ls + lineOffset others := by
  rw [lineOffset_eq, lineOffset_eq, lineOffset_eq, Text.closed, List.flatMap_append, List.length_append]
  rfl

theorem lineOffset_take_succ (h : ls[n]? = some line) :
    lineOffset (ls.take (n + 1)) = lineOffset (ls.take n) + (line.length + 1) := by
  rw [List.take_add_one, h, lineOffset_append]
  rfl

theorem lineOffset_take_le (hmn : m ≤ n) : lineOffset (ls.take m) ≤ lineOffset (ls.take n) := by
  have hsplit := List.take_append_drop m (ls.take n)
  rw [List.take_take, Nat.min_eq_left hmn] at hsplit
  rw [← hsplit, lineOffset_append]
  exact Nat.le_add_right _ _

/-! ## From offsets to positions and back -/

theorem ofOffset_eq (hk : k ≤ t.length) : ofOffset t k = atEnd (t.take k) := by
  have hplace : Text.place t k = k := by
    rw [Text.place, if_pos (Int.natCast_nonneg k)]
    exact Nat.min_eq_left hk
  rw [ofOffset, Text.upTo, hplace]

theorem atEnd_closed_append (h : ∀ line ∈ ls, newline ∉ line) (hlast : newline ∉ last) :
    atEnd (Text.closed ls ++ last) = ⟨ls.length + 1, last.length + 1⟩ := by
  rw [atEnd, Text.lines_closed_append h, Text.lines_of_notMem hlast, List.length_append, List.getLast?_concat]
  rfl

theorem toOffset_eq (h : t.lines[p.line - 1]? = some line) :
    p.toOffset t = .ok (lineOffset (t.lines.take (p.line - 1)) + min (p.column - 1) line.length) := by
  rw [toOffset, h]

/-- Only a position below the last line leads nowhere. -/
theorem toOffset_eq_error_iff (hline : 1 ≤ p.line) :
    p.toOffset t = .error (.invalidPosition p.toText) ↔ t.lines.length < p.line := by
  rw [toOffset]
  cases hget : t.lines[p.line - 1]? with
  | none =>
    rw [List.getElem?_eq_none_iff] at hget
    exact iff_of_true rfl (by omega)
  | some line =>
    obtain ⟨hlt, _⟩ := List.getElem?_eq_some_iff.mp hget
    exact iff_of_false nofun (by omega)

theorem toOffset_ofOffset (hk : k ≤ t.length) : (ofOffset t k).toOffset t = .ok k := by
  obtain ⟨ls, last, hbefore, hls, hlast⟩ := Text.exists_closed_append_eq (t.take k)
  have hposition : ofOffset t k = ⟨ls.length + 1, last.length + 1⟩ := by
    rw [ofOffset_eq hk, ← hbefore, atEnd_closed_append hls hlast]
  -- the line goes on behind the offset, as far as the first newline there
  obtain ⟨first, others, hrest⟩ := Text.exists_lines_eq_cons (t.drop k)
  have htext : t.lines = ls ++ (last ++ first) :: others := by
    conv_lhs => rw [← List.take_append_drop k t, ← hbefore, List.append_assoc]
    rw [Text.lines_closed_append hls, Text.lines_append hlast, hrest, List.modifyHead_cons]
  have hline : t.lines[(ofOffset t k).line - 1]? = some (last ++ first) := by
    rw [hposition, htext]
    show (ls ++ (last ++ first) :: others)[ls.length]? = some (last ++ first)
    rw [List.getElem?_append_right (Nat.le_refl _), Nat.sub_self, List.getElem?_cons_zero]
  have hlength := congrArg List.length hbefore
  rw [List.length_append, List.length_take, Nat.min_eq_left hk, ← lineOffset_eq] at hlength
  rw [toOffset_eq hline, hposition, htext]
  simp only [Nat.add_sub_cancel, List.take_left, List.length_append]
  congr 1
  omega

theorem take_lineOffset_add (ls : List Text) (rest : Text) (hk : k ≤ line.length) :
    (Text.closed ls ++ (line ++ rest)).take (lineOffset ls + k) = Text.closed ls ++ line.take k := by
  rw [lineOffset_eq, List.take_length_add_append, List.take_append_of_le_length hk]

/-- A column past the end of its line leads to the end of the line. -/
theorem exists_toOffset (hline : 1 ≤ p.line) (hcolumn : 1 ≤ p.column) (h : t.lines[p.line - 1]? = some line) :
    ∃ k ≤ t.length, p.toOffset t = .ok k ∧ ofOffset t k = ⟨p.line, min p.column (line.length + 1)⟩ := by
  -- the text up to the offset is the lines before, each with its newline, and a start of this one
  obtain ⟨rest, htext⟩ := Text.exists_of_lines_getElem? h
  have hnewline : ∀ other ∈ t.lines, newline ∉ other := fun _ => Text.newline_notMem_of_mem_lines
  have hlines : (t.lines.take (p.line - 1)).length = p.line - 1 := by
    obtain ⟨hlt, _⟩ := List.getElem?_eq_some_iff.mp h
    exact List.length_take_of_le (Nat.le_of_lt hlt)
  let column := min (p.column - 1) line.length
  have hle : column ≤ line.length := Nat.min_le_right _ _
  have hbefore := take_lineOffset_add (t.lines.take (p.line - 1)) rest hle
  rw [← htext] at hbefore
  have hk : lineOffset (t.lines.take (p.line - 1)) + column ≤ t.length := by
    have hlength := congrArg List.length htext
    rw [List.length_append, List.length_append, ← lineOffset_eq] at hlength
    omega
  refine ⟨_, hk, toOffset_eq h, ?_⟩
  rw [ofOffset_eq hk, hbefore, atEnd_closed_append fun other hother => hnewline other (List.mem_of_mem_take hother),
    hlines, List.length_take_of_le hle, Nat.sub_add_cancel hline]
  · congr 1
    omega
  · exact fun hmem => hnewline line (List.mem_of_getElem? h) (List.mem_of_mem_take hmem)

theorem le_length_of_toOffset (hline : 1 ≤ p.line) (hcolumn : 1 ≤ p.column) (h : p.toOffset t = .ok k) :
    k ≤ t.length := by
  cases hget : t.lines[p.line - 1]? with
  | none =>
    rw [toOffset, hget] at h
    cases h
  | some line =>
    obtain ⟨k', hk', hoffset, _⟩ := exists_toOffset hline hcolumn hget
    obtain rfl := Except.ok.inj (h.symm.trans hoffset)
    exact hk'

/-! ## The order of positions -/

/-- On an earlier line, or further to the left on the same one. -/
def Before (p q : Position) : Prop := p.line < q.line ∨ p.line = q.line ∧ p.column < q.column

/-- The position of a unit of a text, or of the end of a line. -/
structure IsIn (p : Position) (t : Text) : Prop where
  line : 1 ≤ p.line
  column : 1 ≤ p.column
  inside : ∃ line, t.lines[p.line - 1]? = some line ∧ p.column ≤ line.length + 1

/-- Offsets are in the order of their positions. -/
theorem Before.toOffset_lt (h : p.Before q) (hp : p.IsIn t) (hq : q.IsIn t) :
    ∃ i j, p.toOffset t = .ok i ∧ q.toOffset t = .ok j ∧ i < j := by
  obtain ⟨hpline, hpcolumn, line, hline, hle⟩ := hp
  obtain ⟨hqline, hqcolumn, line', hline', hle'⟩ := hq
  refine ⟨_, _, toOffset_eq hline, toOffset_eq hline', ?_⟩
  obtain hlt | ⟨heq, hlt⟩ := h
  · -- the earlier line ends with its newline before the other one starts
    have hnext := lineOffset_take_succ hline
    have hstart : lineOffset (t.lines.take (p.line - 1 + 1)) ≤ lineOffset (t.lines.take (q.line - 1)) :=
      lineOffset_take_le (by omega)
    omega
  · rw [heq] at hline ⊢
    obtain rfl := Option.some.inj (hline.symm.trans hline')
    omega

/-! ## Printed positions -/

theorem coordinate?_digits (hpos : 1 ≤ n) (hle : n ≤ Number.exactLimit) : coordinate? (Number.digits n) = some n := by
  rw [coordinate?, Number.ofText_digits hle, Number.toInt?_ofNat hle, Option.bind_some, if_pos (by omega),
    Int.toNat_natCast]

theorem parse_toText (hline : 1 ≤ p.line) (hcolumn : 1 ≤ p.column) (hline' : p.line ≤ Number.exactLimit)
    (hcolumn' : p.column ≤ Number.exactLimit) : parse p.toText = .ok p := by
  have hcolon : ¬isDigit (unit ':') = true := by decide
  have hsplit : p.toText.splitOn (unit ':') = [Number.digits p.line, Number.digits p.column] := by
    rw [toText, Number.toText_ofNat_of_le hline', Number.toText_ofNat_of_le hcolumn',
      List.splitOn_append_cons_self_of_not_mem (Number.notMem_digits (by decide)),
      List.splitOn_eq_singleton (Number.notMem_digits (by decide))]
  rw [parse, hsplit]
  simp only [coordinate?_digits hline hline', coordinate?_digits hcolumn hcolumn']

theorem length_le_lineOffset (ls : List Text) : ls.length ≤ lineOffset ls := by
  induction ls with
  | nil => exact Nat.le_refl 0
  | cons line ls ih =>
    show ls.length + 1 ≤ line.length + 1 + lineOffset ls
    omega

theorem bounds_ofOffset (hk : k ≤ t.length) : 1 ≤ (ofOffset t k).line ∧ (ofOffset t k).line ≤ k + 1 ∧
    1 ≤ (ofOffset t k).column ∧ (ofOffset t k).column ≤ k + 1 := by
  obtain ⟨ls, last, hbefore, hls, hlast⟩ := Text.exists_closed_append_eq (t.take k)
  have hlines := length_le_lineOffset ls
  have hlength := congrArg List.length hbefore
  rw [List.length_append, List.length_take, Nat.min_eq_left hk, ← lineOffset_eq] at hlength
  rw [ofOffset_eq hk, ← hbefore, atEnd_closed_append hls hlast]
  dsimp only
  exact ⟨by omega, by omega, by omega, by omega⟩

theorem parse_toText_ofOffset (hk : k ≤ t.length) (hlimit : k < Number.exactLimit) :
    parse (ofOffset t k).toText = .ok (ofOffset t k) := by
  obtain ⟨hline, hline', hcolumn, hcolumn'⟩ := bounds_ofOffset hk
  exact parse_toText hline hcolumn (by omega) (by omega)

theorem bounds_of_parse {text : Text} (h : parse text = .ok p) : 1 ≤ p.line ∧ 1 ≤ p.column := by
  have hcoordinate {text : Text} {n : Nat} (h : coordinate? text = some n) : 1 ≤ n := by
    obtain ⟨i, _, hi⟩ := Option.bind_eq_some_iff.mp h
    split at hi
    · rw [← Option.some.inj hi]
      omega
    · cases hi
  rw [parse] at h
  split at h
  · split at h
    · rename_i hl hc
      rw [← Except.ok.inj h]
      exact ⟨hcoordinate hl, hcoordinate hc⟩
    · cases h
  · cases h

end Position

namespace CursorRequest

variable {t : Text} {position : Text} {offset? : Option Number} {k : Nat}

theorem resolve_toText (hk : k ≤ t.length) (hlimit : k < Number.exactLimit) (offset? : Option Number) :
    resolve ⟨some (Position.ofOffset t k).toText, offset?⟩ t = .ok k := by
  simp only [resolve, Position.parse_toText_ofOffset hk hlimit, bind, Except.bind, Position.toOffset_ofOffset hk]
  rfl

/-- A position that a request names leads to a place where a cursor can stand, or nowhere. -/
theorem cursorIn_of_resolve {i : Int} (h : resolve ⟨some position, offset?⟩ t = .ok i) :
    ∃ k : Nat, i = k ∧ cursorIn t (.finite i) = .ok k := by
  simp only [resolve, bind, Except.bind] at h
  split at h
  · cases h
  · rename_i p hparse
    obtain ⟨hline, hcolumn⟩ := Position.bounds_of_parse hparse
    split at h
    · cases h
    · rename_i k hoffset
      refine ⟨k, (Except.ok.inj h).symm, ?_⟩
      obtain rfl : (k : Int) = i := Except.ok.inj h
      rw [Rat.intCast_natCast, cursorIn_finite, if_pos (Position.le_length_of_toOffset hline hcolumn hoffset)]

end CursorRequest

/-- Each offset of a text has a position that leads back to it, also when it is printed and read again, as far as
integers are held exactly. A position leads nowhere just when its line is below the last one. Elsewhere it leads to an
offset of the text whose position is the same but for columns past the end of the line, and positions in the text are
ordered as their offsets are. Whatever a request names by a position is a place for the cursor. -/
theorem Position.offset_law (t : Text) :
    (∀ k ≤ t.length, (ofOffset t k).toOffset t = .ok k ∧
      (k < Number.exactLimit →
        ∀ offset?, CursorRequest.resolve ⟨some (ofOffset t k).toText, offset?⟩ t = .ok k)) ∧
    (∀ p : Position, 1 ≤ p.line → 1 ≤ p.column →
      (p.toOffset t = .error (.invalidPosition p.toText) ↔ t.lines.length < p.line) ∧
      (∀ line, t.lines[p.line - 1]? = some line →
        ∃ k ≤ t.length, p.toOffset t = .ok k ∧ ofOffset t k = ⟨p.line, min p.column (line.length + 1)⟩)) ∧
    (∀ p q : Position, p.IsIn t → q.IsIn t → p.Before q →
      ∃ i j, p.toOffset t = .ok i ∧ q.toOffset t = .ok j ∧ i < j) ∧
    ∀ position offset? i, CursorRequest.resolve ⟨some position, offset?⟩ t = .ok i →
      ∃ k : Nat, i = k ∧ cursorIn t (.finite i) = .ok k := by
  refine ⟨fun k hk => ⟨toOffset_ofOffset hk, fun hlimit offset? => ?_⟩, fun p hline hcolumn => ⟨?_, ?_⟩, ?_, ?_⟩
  · exact CursorRequest.resolve_toText hk hlimit offset?
  · exact toOffset_eq_error_iff hline
  · exact fun line hget => exists_toOffset hline hcolumn hget
  · exact fun p q hp hq hbefore => hbefore.toOffset_lt hp hq
  · exact fun position offset? i h => CursorRequest.cursorIn_of_resolve h

end CCompletion
