import CCompletion.Proofs.Source.Context
import CCompletion.Proofs.Source.Word
import Mathlib.Data.Nat.Init

/-!
# Contexts while a word is typed

The tests for the context of a cursor see no difference between the text before a word and the text with the word
at its end. Only the tests for directive lines look at the line as a whole, and there a word shows only
where it is the first thing on the line.
-/

namespace CCompletion

variable {s t w line rest : Text} {u : CodeUnit} {k : Nat}

namespace Context

/-! ## Strings and comments -/

theorem quoteOpen_of_notMem (h : unit '"' ∉ w) (escaped isOpen : Bool) : quoteOpen escaped isOpen w = isOpen := by
  induction w generalizing escaped with
  | nil => rfl
  | cons u w ih =>
    rw [List.mem_cons, not_or] at h
    rw [quoteOpen, if_neg fun hu => h.1 hu.1.symm, ih h.2]

theorem quoteOpen_append (h : unit '"' ∉ w) (escaped isOpen : Bool) :
    quoteOpen escaped isOpen (s ++ w) = quoteOpen escaped isOpen s := by
  induction s generalizing escaped isOpen with
  | nil => exact quoteOpen_of_notMem h escaped isOpen
  | cons u s ih => rw [List.cons_append, quoteOpen, quoteOpen, ih]

theorem insideString_append (h : unit '"' ∉ w) : insideString (s ++ w) = insideString s :=
  quoteOpen_append h false false

theorem blockCommentOpen_append (hstar : unit '*' ∉ w) (hslash : unit '/' ∉ w) :
    blockCommentOpen (s ++ w) = blockCommentOpen s := by
  have hopen : Text.lastIndexOf? "/*" (s ++ w) = Text.lastIndexOf? "/*" s :=
    Text.lastIndexOf?_congr (by decide) fun _ => Text.standsAt_pair_append hstar
  have hclose (j : Nat) : Text.StandsAt "*/" (s ++ w) j ↔ Text.StandsAt "*/" s j :=
    Text.standsAt_pair_append hslash
  rw [Bool.eq_iff_iff, blockCommentOpen_eq_true_iff, blockCommentOpen_eq_true_iff, hopen]
  simp only [hclose]

theorem lineCommentOpen_append (hslash : unit '/' ∉ w) (hnewline : newline ∉ w) :
    lineCommentOpen (s ++ w) = lineCommentOpen s := by
  have hlast : Text.lastIndexOf? "//" (s ++ w) = Text.lastIndexOf? "//" s :=
    Text.lastIndexOf?_congr (by decide) fun _ => Text.standsAt_pair_append hslash
  have hline (i : Nat) : newline ∈ (s ++ w).drop i ↔ newline ∈ s.drop i := by
    rw [List.drop_append, List.mem_append]
    exact or_iff_left fun hmem => hnewline (List.mem_of_mem_drop hmem)
  rw [Bool.eq_iff_iff, lineCommentOpen_eq_true_iff, lineCommentOpen_eq_true_iff, hlast]
  simp only [hline]

theorem insideComment_append (hstar : unit '*' ∉ w) (hslash : unit '/' ∉ w) (hnewline : newline ∉ w) :
    insideComment (s ++ w) = insideComment s := by
  rw [insideComment, insideComment, blockCommentOpen_append hstar hslash,
    lineCommentOpen_append hslash hnewline]

/-! ## Argument lists and member access -/

theorem argumentListOpen_append (h : w.IsRun) (depth : Nat) :
    argumentListOpen depth (w ++ rest) = argumentListOpen depth rest := by
  induction w with
  | nil => rfl
  | cons u w ih =>
    have hu : isIdentifierUnit u = true := h u List.mem_cons_self
    have hne {v : CodeUnit} (hv : isIdentifierUnit v = false) : u ≠ v := by
      rintro rfl
      rw [hu] at hv
      cases hv
    rw [List.cons_append, argumentListOpen.eq_def]
    simp only [hne (v := unit ')') (by decide), hne (v := unit '(') (by decide),
      hne (v := unit '\x7b') (by decide), hne (v := unit '\x7d') (by decide), or_self, if_false]
    exact ih fun v hv => h v (List.mem_cons_of_mem u hv)

theorem isRun_reverse (h : w.IsRun) : Text.IsRun w.reverse := fun u hu => h u (List.mem_reverse.mp hu)

theorem argumentListOpen_reverse_append (h : w.IsRun) :
    argumentListOpen 0 (s ++ w).reverse = argumentListOpen 0 s.reverse := by
  rw [List.reverse_append, argumentListOpen_append (isRun_reverse h)]

theorem memberAccess_append (h : w.IsRun) : memberAccess (s ++ w) = memberAccess s := by
  rw [memberAccess, List.reverse_append, List.dropWhile_append_of_pos (isRun_reverse h), memberAccess]

/-! ## Directive lines -/

theorem isDirectiveLine_eq (line : Text) :
    isDirectiveLine line = ((Text.skipBlanks line).head? == some (unit '#')) := by
  rw [isDirectiveLine, directive?, Option.isSome_map]
  cases Text.skipBlanks line with
  | nil => rfl
  | cons u rest =>
    rw [Text.afterUnit?]
    by_cases hu : u = unit '#'
    · rw [if_pos hu, hu]; rfl
    · rw [if_neg hu, List.head?_cons, Option.isSome_none, eq_comm, beq_eq_false_iff_ne]
      exact fun h => hu (Option.some.inj h)

theorem isDirectiveLine_of_isIncludeLine (h : isIncludeLine line = true) : isDirectiveLine line = true := by
  rw [isIncludeLine] at h
  rw [isDirectiveLine]
  cases hdirective : directive? line with
  | none => rw [hdirective] at h; cases h
  | some rest => rfl

theorem skipBlanks_append (line rest : Text) :
    Text.skipBlanks (line ++ rest) =
      if (Text.skipBlanks line).isEmpty then Text.skipBlanks rest else Text.skipBlanks line ++ rest :=
  List.dropWhile_append

/-- The first unit of a line that is no blank tells whether the line is a directive. -/
theorem isDirectiveLine_append (h : Text.skipBlanks line ≠ []) (rest : Text) :
    isDirectiveLine (line ++ rest) = isDirectiveLine line := by
  rw [isDirectiveLine_eq, isDirectiveLine_eq, skipBlanks_append, if_neg (mt List.isEmpty_iff.mp h),
    List.head?_append_of_ne_nil _ h]

theorem isDirectiveLine_of_isRun (h : w.IsRun) (hne : w ≠ []) (rest : Text) :
    isDirectiveLine (w ++ rest) = false := by
  obtain ⟨u, w, rfl⟩ := List.exists_cons_of_ne_nil hne
  have hu : isIdentifierUnit u = true := h u List.mem_cons_self
  have hblank : ¬isBlank u = true := by rw [isBlank_of_isIdentifierUnit hu]; decide
  have hskip : Text.skipBlanks (u :: w ++ rest) = u :: w ++ rest := List.dropWhile_cons_of_neg hblank
  rw [isDirectiveLine_eq, hskip, List.cons_append, List.head?_cons, beq_eq_false_iff_ne]
  rintro ⟨⟩
  cases hu

/-- A word that is typed on a line leaves it no directive if it was none before. -/
theorem isDirectiveLine_word (h : w.IsRun) (hne : w ≠ []) {old : Text}
    (hold : isDirectiveLine (line ++ old) = false) (rest : Text) : isDirectiveLine (line ++ (w ++ rest)) = false := by
  by_cases hblank : Text.skipBlanks line = []
  · rw [isDirectiveLine_eq, skipBlanks_append, if_pos (List.isEmpty_iff.mpr hblank), ← isDirectiveLine_eq,
      isDirectiveLine_of_isRun h hne]
  · rw [isDirectiveLine_append hblank, ← isDirectiveLine_append hblank old, hold]

/-! ## Contexts apart from directives -/

/-- The context of a cursor on a line that is no directive. -/
def onPlainLine (before : Text) : Context :=
  if insideString before then .string
  else if insideComment before then .comment
  else if argumentListOpen 0 before.reverse then .arguments
  else if memberAccess before then .member
  else .general

/-- A directive line counts only outside of strings and comments. -/
theorem of_eq_onPlainLine {before : Text}
    (h : isDirectiveLine line = true → onPlainLine before = .string ∨ onPlainLine before = .comment) :
    of before line = onPlainLine before := by
  by_cases hline : isDirectiveLine line = true
  · have hcontext := h hline
    rw [of, onPlainLine]
    rw [onPlainLine] at hcontext
    split_ifs at hcontext ⊢ <;> simp_all
  · have hinclude : ¬isIncludeLine line = true := fun hinclude => hline (isDirectiveLine_of_isIncludeLine hinclude)
    rw [of, onPlainLine, if_neg hinclude, if_neg hline]

theorem onPlainLine_of_isDirectiveLine {before : Text} (hinclude : of before line ≠ .includeLine)
    (hdirective : of before line ≠ .directive) (hline : isDirectiveLine line = true) :
    onPlainLine before = .string ∨ onPlainLine before = .comment := by
  rw [of] at hinclude hdirective
  rw [onPlainLine]
  split_ifs at * <;> simp_all

theorem onPlainLine_append (h : w.IsRun) (s : Text) : onPlainLine (s ++ w) = onPlainLine s := by
  rw [onPlainLine, insideString_append (h.notMem (by decide)),
    insideComment_append (h.notMem (by decide)) (h.notMem (by decide)) (h.notMem (by decide)),
    argumentListOpen_reverse_append h, memberAccess_append h, onPlainLine]

/-- A parenthesis behind the last word opens an argument list where neither a string nor a comment is open. -/
theorem onPlainLine_parenthesis (h : w.IsRun)
    (hcontext : onPlainLine s = .arguments ∨ onPlainLine s = .member ∨ onPlainLine s = .general) :
    onPlainLine (s ++ (w ++ [unit '('])) = .arguments := by
  have hstring : insideString s = false := by
    rw [onPlainLine] at hcontext
    split_ifs at hcontext <;> simp_all
  have hcomment : insideComment s = false := by
    rw [onPlainLine, hstring] at hcontext
    split_ifs at hcontext <;> simp_all
  have hunits {u : CodeUnit} (hu : isIdentifierUnit u = false) (hne : u ≠ unit '(') : u ∉ w ++ [unit '('] := by
    rw [List.mem_append, List.mem_singleton, not_or]
    exact ⟨h.notMem hu, hne⟩
  have hopen : argumentListOpen 0 (s ++ (w ++ [unit '('])).reverse = true := by
    rw [← List.append_assoc, List.reverse_append]
    rfl
  rw [onPlainLine, insideString_append (hunits (by decide) (by decide)),
    insideComment_append (hunits (by decide) (by decide)) (hunits (by decide) (by decide))
      (hunits (by decide) (by decide)), hstring, hcomment, hopen]
  rfl

end Context

/-! ## The line of a cursor -/

/-- The part of a text behind its last newline. -/
def lastLine (t : Text) : Text := (t.reverse.takeWhile (· ≠ newline)).reverse

theorem exists_append_lastLine (t : Text) : ∃ lines, t = lines ++ lastLine t := by
  refine ⟨(t.reverse.dropWhile (· ≠ newline)).reverse, ?_⟩
  rw [lastLine, ← List.reverse_append, List.takeWhile_append_dropWhile, List.reverse_reverse]

/-- The line of a cursor goes on from the last newline before it to the first one behind it. -/
theorem currentLine_append (before after : Text) :
    currentLine (before ++ after) before.length = lastLine before ++ after.takeWhile (· ≠ newline) := by
  obtain ⟨lines, hlines⟩ := exists_append_lastLine before
  have hstart : lineStart (before ++ after) before.length = lines.length := by
    have hlength : (before.reverse.takeWhile (· ≠ newline)).length = (lastLine before).length :=
      List.length_reverse.symm
    have hsum := congrArg List.length hlines
    rw [List.length_append] at hsum
    rw [lineStart, List.take_left, hlength]
    omega
  have hend : lineEnd (before ++ after) before.length =
      before.length + (after.takeWhile (· ≠ newline)).length := by
    rw [lineEnd, List.take_left, List.drop_left]
  have htake : after.take (after.takeWhile (· ≠ newline)).length = after.takeWhile (· ≠ newline) :=
    (List.prefix_iff_eq_take.mp (List.takeWhile_prefix _)).symm
  rw [currentLine, hstart, hend, List.take_length_add_append, htake]
  conv_lhs => rw [hlines]
  rw [List.append_assoc, List.drop_left]

theorem currentLine_eq (hk : k ≤ t.length) :
    currentLine t k = lastLine (t.take k) ++ (t.drop k).takeWhile (· ≠ newline) := by
  have hline := currentLine_append (t.take k) (t.drop k)
  rw [List.take_append_drop, List.length_take_of_le hk] at hline
  exact hline

theorem lastLine_append (h : newline ∉ w) (s : Text) : lastLine (s ++ w) = lastLine s ++ w := by
  have hunits : ∀ u ∈ w.reverse, decide (u ≠ newline) = true := by
    intro u hu
    rw [decide_eq_true_iff]
    rintro rfl
    exact h (List.mem_reverse.mp hu)
  rw [lastLine, List.reverse_append, List.takeWhile_append_of_pos hunits, List.reverse_append,
    List.reverse_reverse, lastLine]

/-! ## The cursor in a word -/

theorem isRun_singleton (hu : isIdentifierUnit u = true) : Text.IsRun [u] := by
  intro v hv
  rwa [List.mem_singleton.mp hv]

/-- The unit that the cursor passes stays on its line. -/
theorem currentLine_succ (h : t[k]? = some u) (hu : u ≠ newline) : currentLine t (k + 1) = currentLine t k := by
  obtain ⟨hk, hget⟩ := List.getElem?_eq_some_iff.mp h
  have hdrop : t.drop k = u :: t.drop (k + 1) := by rw [List.drop_eq_getElem_cons hk, hget]
  have hline : newline ∉ [u] := fun hmem => hu (List.mem_singleton.mp hmem).symm
  rw [currentLine_eq (by omega), currentLine_eq (by omega), List.take_add_one, h, Option.toList_some,
    lastLine_append hline, hdrop, List.takeWhile_cons_of_pos (by simpa using hu), List.append_assoc,
    List.singleton_append]

/-- No test sees whether the cursor stands before or behind an identifier unit. -/
theorem atCursor_succ (h : t[k]? = some u) (hu : isIdentifierUnit u = true) :
    Context.atCursor t (k + 1) = Context.atCursor t k := by
  have hrun : Text.IsRun [u] := isRun_singleton hu
  have hnewline : u ≠ newline := by
    rintro rfl
    cases hu
  unfold Context.atCursor Context.of
  rw [currentLine_succ h hnewline, List.take_add_one, h, Option.toList_some,
    Context.insideString_append (hrun.notMem (by decide)),
    Context.insideComment_append (hrun.notMem (by decide)) (hrun.notMem (by decide)) (hrun.notMem (by decide)),
    Context.argumentListOpen_reverse_append hrun, Context.memberAccess_append hrun]

theorem atCursor_of_run {start : Nat} (hle : start ≤ k) (hk : k ≤ t.length)
    (hrun : ∀ i, start ≤ i → i < k → ∀ u ∈ t[i]?, isIdentifierUnit u = true) :
    Context.atCursor t k = Context.atCursor t start := by
  -- From the start of the run, unit by unit.
  induction k, hle using Nat.le_induction with
  | base => rfl
  | succ k hle ih =>
    have hget : t[k]? = some t[k] := List.getElem?_eq_getElem hk
    rw [atCursor_succ hget (hrun k hle (Nat.lt_succ_self k) _ hget)]
    exact ih (Nat.le_of_succ_le hk) fun i hi hik => hrun i hi (Nat.lt_succ_of_lt hik)

/-- The cursor changes its context nowhere in a word: it is the same on both sides of each identifier unit, and so all
along a run of them. -/
theorem classify_along_word (t : Text) :
    (∀ (k : Nat) (u : CodeUnit), t[k]? = some u → isIdentifierUnit u = true →
      classify t (.finite k) = classify t (.finite (k + 1 : Nat))) ∧
    ∀ start stop : Nat, start ≤ stop → stop ≤ t.length →
      (∀ i, start ≤ i → i < stop → ∀ u ∈ t[i]?, isIdentifierUnit u = true) →
      ∃ c, ∀ k : Nat, start ≤ k → k ≤ stop → classify t (.finite k) = .ok c := by
  constructor
  · intro k u h hu
    have hk : k < t.length := (List.getElem?_eq_some_iff.mp h).1
    rw [classify_finite (Nat.le_of_lt hk), classify_finite hk, atCursor_succ h hu]
  · intro start stop _ hstop hrun
    refine ⟨Context.atCursor t start, fun k hstart hk => ?_⟩
    have hlength : k ≤ t.length := Nat.le_trans hk hstop
    rw [classify_finite hlength, atCursor_of_run hstart hlength fun i hi hik => hrun i hi (Nat.lt_of_lt_of_le hik hk)]

/-- A member's name with an arrow before it and the rest of a call behind it. -/
theorem classify_along_word_member :
    let document : Text := "f(a); p->na(\""
    classify document (.finite (9 : Nat)) = classify document (.finite (10 : Nat)) ∧
    ∀ k : Nat, 9 ≤ k → k ≤ 11 → classify document (.finite k) = .ok .member := by
  intro document
  have hmember : classify document (.finite (9 : Nat)) = .ok .member :=
    classify_finite_eq_ok_iff.mpr (by decide +kernel)
  have hunits : ∀ i, 9 ≤ i → i < 11 → ∀ u ∈ document[i]?, isIdentifierUnit u = true := by
    have hfirst : document[9]? = some (unit 'n') := by decide +kernel
    have hsecond : document[10]? = some (unit 'a') := by decide +kernel
    intro i hi hstop u hu
    obtain rfl | rfl : i = 9 ∨ i = 10 := by omega
    · rw [hfirst] at hu
      exact Option.some.inj hu ▸ rfl
    · rw [hsecond] at hu
      exact Option.some.inj hu ▸ rfl
  obtain ⟨hstep, hword⟩ := classify_along_word document
  obtain ⟨c, hc⟩ := hword 9 11 (by decide) (by decide) hunits
  obtain rfl : c = .member := Except.ok.inj ((hc 9 (by decide) (by decide)).symm.trans hmember)
  exact ⟨hstep 9 (unit 'n') (by decide) (by decide), hc⟩

end CCompletion
