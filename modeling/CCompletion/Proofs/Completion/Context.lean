import CCompletion.Proofs.Completion.Insertion
import CCompletion.Proofs.Source.Typing

/-!
# Contexts after insertions

A word that is inserted leaves the cursor in the context in which it stood before, apart from directive lines. A
function takes it to the argument list that is inserted with it.
-/

namespace CCompletion

variable {t w : Text} {k : Nat}

/-- The context of a cursor that stands behind what has been inserted as far as the cursor. -/
theorem atCursor_append (before after : Text) :
    Context.atCursor (before ++ after) before.length =
      .of before (lastLine before ++ after.takeWhile (· ≠ newline)) := by
  rw [Context.atCursor, List.take_left, currentLine_append]

theorem classify_append {before after : Text} {context : Context}
    (h : Context.atCursor (before ++ after) before.length = context) :
    classify (before ++ after) (.finite before.length) = .ok context := by
  refine classify_finite_eq_ok_iff.mpr ⟨?_, h⟩
  rw [List.length_append]
  exact Nat.le_add_right _ _

theorem atCursor_stem (hk : k ≤ t.length) :
    Context.atCursor t k =
      .of (stem (t.take k) ++ trailingWord (t.take k))
        (lastLine (stem (t.take k)) ++ (trailingWord (t.take k) ++ (t.drop k).takeWhile (· ≠ newline))) := by
  have hlength : (t.take k).length = k := List.length_take_of_le hk
  have hsplit := atCursor_append (t.take k) (t.drop k)
  rw [List.take_append_drop, hlength] at hsplit
  rw [hsplit, ← List.append_assoc, ← lastLine_append ((isRun_trailingWord _).notMem (by decide)),
    stem_append_trailingWord]

/-- The line of a cursor, with the word before it set apart. -/
def lineAround (t : Text) (k : Nat) (word : Text) : Text :=
  lastLine (stem (t.take k)) ++ (word ++ (t.drop k).takeWhile (· ≠ newline))

theorem onPlainLine_stem (hk : k ≤ t.length) (hinclude : Context.atCursor t k ≠ .includeLine)
    (hdirective : Context.atCursor t k ≠ .directive) :
    Context.onPlainLine (stem (t.take k)) = Context.atCursor t k ∧
      (Context.isDirectiveLine (lineAround t k (trailingWord (t.take k))) = true →
        Context.atCursor t k = .string ∨ Context.atCursor t k = .comment) := by
  rw [atCursor_stem hk] at hinclude hdirective ⊢
  have hline := Context.onPlainLine_of_isDirectiveLine hinclude hdirective
  rw [Context.of_eq_onPlainLine hline, Context.onPlainLine_append (isRun_trailingWord _)]
  rw [Context.onPlainLine_append (isRun_trailingWord _)] at hline
  exact ⟨rfl, hline⟩

/-- Putting a word in the place of the one before the cursor changes its context nowhere but on directive lines. -/
theorem atCursor_word (hk : k ≤ t.length) (hrun : w.IsRun) (hne : w ≠ [])
    (hinclude : Context.atCursor t k ≠ .includeLine) (hdirective : Context.atCursor t k ≠ .directive) :
    Context.atCursor (stem (t.take k) ++ w ++ t.drop k) (stem (t.take k) ++ w).length =
      Context.atCursor t k := by
  obtain ⟨hplain, hold⟩ := onPlainLine_stem hk hinclude hdirective
  rw [atCursor_append, lastLine_append (hrun.notMem (by decide)), List.append_assoc, Context.of_eq_onPlainLine,
    Context.onPlainLine_append hrun, hplain]
  intro hline
  rw [Context.onPlainLine_append hrun, hplain]
  -- A line that is a directive with the new word was one with the old word.
  refine hold ?_
  by_contra hnone
  rw [Context.isDirectiveLine_word hrun hne (Bool.eq_false_of_not_eq_true hnone)] at hline
  cases hline

/-- Putting a word with an opening parenthesis there takes the cursor to an argument list. -/
theorem atCursor_parenthesis (hk : k ≤ t.length) (hrun : w.IsRun) (hne : w ≠ [])
    (hcontext : Context.atCursor t k = .arguments ∨ Context.atCursor t k = .member ∨
      Context.atCursor t k = .general) (rest : Text) :
    Context.atCursor (stem (t.take k) ++ (w ++ [unit '(']) ++ rest)
      (stem (t.take k) ++ (w ++ [unit '('])).length = .arguments := by
  have hinclude : Context.atCursor t k ≠ .includeLine := by rcases hcontext with h | h | h <;> simp [h]
  have hdirective : Context.atCursor t k ≠ .directive := by rcases hcontext with h | h | h <;> simp [h]
  obtain ⟨hplain, hold⟩ := onPlainLine_stem hk hinclude hdirective
  have hline : Context.isDirectiveLine (lineAround t k (trailingWord (t.take k))) = false := by
    rw [← Bool.not_eq_true]
    intro hline
    rcases hold hline with h | h <;> simp [h] at hcontext
  have hnewline : newline ∉ w ++ [unit '('] := by
    rw [List.mem_append, not_or]
    exact ⟨hrun.notMem (by decide), by decide⟩
  rw [atCursor_append, lastLine_append hnewline, List.append_assoc, List.append_assoc,
    Context.of_eq_onPlainLine, Context.onPlainLine_parenthesis hrun (by rwa [hplain])]
  rw [Context.isDirectiveLine_word hrun hne hline]
  exact nofun

/-- Behind a word that is inserted, the cursor is in the same context as before, where that is no directive line.
Between the parentheses of a function that is inserted in code it is in an argument list. -/
theorem classify_insert {c : Candidate} {context : Context} (hclassify : classify t (.finite k) = .ok context)
    (hrun : c.text.IsRun) (hne : c.text ≠ []) (hsnippet : c.kind ≠ .snippet) :
    ∃ i, c.insert t (.finite k) = .ok i ∧
      (c.kind ≠ .function → context ≠ .includeLine → context ≠ .directive →
        classify i.text (.finite i.cursor) = .ok context) ∧
      (c.kind = .function → context = .arguments ∨ context = .member ∨ context = .general →
        classify i.text (.finite i.cursor) = .ok .arguments) := by
  obtain ⟨hk, rfl⟩ := classify_finite_eq_ok_iff.mp hclassify
  by_cases hfunction : c.kind = .function
  · refine ⟨_, (c.insert_finite hk).trans (c.insertAt_eq hk (c.insertion_of_function hfunction)),
      fun hne => absurd hfunction hne, fun _ hcontext => ?_⟩
    -- The cursor stands between the two parentheses.
    have htext : stem (t.take k) ++ (c.text ++ Text.ofString "()") ++ t.drop k =
        stem (t.take k) ++ (c.text ++ [unit '(']) ++ unit ')' :: t.drop k := by
      have hpair : Text.ofString "()" = [unit '(', unit ')'] := rfl
      simp only [hpair, List.append_assoc, List.cons_append, List.nil_append]
    have hcursor : (stem (t.take k)).length + (c.text.length + 1) =
        (stem (t.take k) ++ (c.text ++ [unit '('])).length := by
      simp only [List.length_append, List.length_singleton]
    simp only [htext, hcursor]
    exact classify_append (atCursor_parenthesis hk hrun hne hcontext _)
  · refine ⟨_, (c.insert_finite hk).trans (c.insertAt_eq hk (c.insertion_of_ne hfunction hsnippet)),
      fun _ hinclude hdirective => ?_, fun h => absurd h hfunction⟩
    simp only [← List.length_append]
    exact classify_append (atCursor_word hk hrun hne hinclude hdirective)

/-- A function takes the place of a member's name that is being typed, with a hash and a quote further on. -/
theorem classify_insert_member :
    let document : Text := "p->va # \"x"
    let function : Candidate := ⟨.function, "value"⟩
    classify document (.finite (5 : Nat)) = .ok .member ∧ function.text.IsRun ∧ function.text ≠ [] ∧
    function.kind ≠ .snippet ∧
    ∃ i, function.insert document (.finite (5 : Nat)) = .ok i ∧
      classify i.text (.finite i.cursor) = .ok .arguments := by
  intro document function
  have hclassify : classify document (.finite (5 : Nat)) = .ok .member :=
    classify_finite_eq_ok_iff.mpr (by decide +kernel)
  have hrun : function.text.IsRun := by
    have hall : (Text.ofString "value").all isIdentifierUnit = true := by decide
    exact List.all_eq_true.mp hall
  have hne : function.text ≠ [] := by decide
  obtain ⟨i, hinsert, _, hcontext⟩ := classify_insert hclassify hrun hne (by decide)
  exact ⟨hclassify, hrun, hne, by decide, i, hinsert, hcontext rfl (.inr (.inl rfl))⟩

end CCompletion
