import CCompletion.Proofs.Source.Context
import CCompletion.Proofs.Source.Word

/-!
# Argument lists and member access

Outside of strings, comments and directive lines, two tests are left for the context of a cursor. The one goes back
through the text before it, counting the parentheses that wait for their partners; the other looks at what stands
before the word that is being typed. Here both are said of the text as it stands.
-/

namespace CCompletion

variable {t before line part : Text} {u : CodeUnit} {k depth : Nat}

namespace Context

/-! ## Open parentheses -/

/-- A part of a text has no braces in it, and more than `depth` of its opening parentheses have no closing one to go
with them. -/
structure LeavesOpen (depth : Nat) (part : Text) : Prop where
  noOpening : unit '\x7b' ∉ part
  noClosing : unit '\x7d' ∉ part
  excess : part.count (unit ')') + depth < part.count (unit '(')

theorem not_leavesOpen_nil (depth : Nat) : ¬LeavesOpen depth [] := fun h => Nat.not_lt_zero _ h.excess

/-- As no parenthesis stands in the empty part, the parts to look at are those that take in the first unit. -/
theorem exists_leavesOpen_cons_iff :
    (∃ part, part <+: u :: t ∧ LeavesOpen depth part) ↔ ∃ part, part <+: t ∧ LeavesOpen depth (u :: part) := by
  constructor
  · rintro ⟨part, hpart, hopen⟩
    rw [List.prefix_cons_iff] at hpart
    obtain rfl | ⟨rest, rfl, hrest⟩ := hpart
    · exact absurd hopen (not_leavesOpen_nil depth)
    · exact ⟨rest, hrest, hopen⟩
  · rintro ⟨part, hpart, hopen⟩
    exact ⟨u :: part, (List.prefix_cons_inj u).mpr hpart, hopen⟩

/-- A unit that is no brace counts only for the parentheses. -/
theorem leavesOpen_cons_iff {depth' : Nat} (hopening : u ≠ unit '\x7b') (hclosing : u ≠ unit '\x7d')
    (hexcess : (u :: part).count (unit ')') + depth < (u :: part).count (unit '(') ↔
      part.count (unit ')') + depth' < part.count (unit '(')) :
    LeavesOpen depth (u :: part) ↔ LeavesOpen depth' part := by
  constructor
  · intro h
    exact ⟨List.not_mem_of_not_mem_cons h.noOpening, List.not_mem_of_not_mem_cons h.noClosing,
      hexcess.mp h.excess⟩
  · intro h
    exact ⟨List.not_mem_cons_of_ne_of_not_mem hopening.symm h.noOpening,
      List.not_mem_cons_of_ne_of_not_mem hclosing.symm h.noClosing, hexcess.mpr h.excess⟩

theorem leavesOpen_closing_iff : LeavesOpen depth (unit ')' :: part) ↔ LeavesOpen (depth + 1) part := by
  apply leavesOpen_cons_iff (by decide) (by decide)
  rw [List.count_cons_self, List.count_cons_of_ne (by decide)]
  omega

theorem leavesOpen_opening_iff : LeavesOpen (depth + 1) (unit '(' :: part) ↔ LeavesOpen depth part := by
  apply leavesOpen_cons_iff (by decide) (by decide)
  rw [List.count_cons_self, List.count_cons_of_ne (by decide)]
  omega

theorem leavesOpen_other_iff (hclose : u ≠ unit ')') (hopen : u ≠ unit '(') (hopening : u ≠ unit '\x7b')
    (hclosing : u ≠ unit '\x7d') : LeavesOpen depth (u :: part) ↔ LeavesOpen depth part := by
  apply leavesOpen_cons_iff hopening hclosing
  rw [List.count_cons_of_ne hclose, List.count_cons_of_ne hopen]

/-- Going back, the scan stops at the first parenthesis that is more than `depth` and all the closed ones. -/
theorem argumentListOpen_eq_true_iff :
    argumentListOpen depth t = true ↔ ∃ part, part <+: t ∧ LeavesOpen depth part := by
  -- Along the scan: `depth` parentheses have been closed behind what is left of the text.
  induction t generalizing depth with
  | nil =>
    refine iff_of_false Bool.false_ne_true ?_
    rintro ⟨part, hpart, hopen⟩
    rw [List.prefix_nil.mp hpart] at hopen
    exact not_leavesOpen_nil depth hopen
  | cons u t ih =>
    rw [exists_leavesOpen_cons_iff, argumentListOpen.eq_def]
    by_cases hclose : u = unit ')'
    · subst hclose
      simp only [leavesOpen_closing_iff]
      exact ih
    by_cases hopen : u = unit '('
    · subst hopen
      cases depth with
      | zero =>
        -- This one nothing closes, so that the part that ends with it is enough.
        refine iff_of_true rfl ⟨[], List.nil_prefix, by decide, by decide, by decide⟩
      | succ depth =>
        simp only [leavesOpen_opening_iff]
        exact ih
    by_cases hbrace : u = unit '\x7b' ∨ u = unit '\x7d'
    · simp only [if_neg hclose, if_neg hopen, if_pos hbrace]
      refine iff_of_false Bool.false_ne_true ?_
      rintro ⟨part, _, hpart⟩
      obtain rfl | rfl := hbrace
      · exact hpart.noOpening List.mem_cons_self
      · exact hpart.noClosing List.mem_cons_self
    · rw [not_or] at hbrace
      simp only [if_neg hclose, if_neg hopen, if_neg (not_or.mpr hbrace),
        leavesOpen_other_iff hclose hopen hbrace.1 hbrace.2]
      exact ih

theorem LeavesOpen.reverse (h : LeavesOpen depth part) : LeavesOpen depth part.reverse := by
  refine ⟨mt List.mem_reverse.mp h.noOpening, mt List.mem_reverse.mp h.noClosing, ?_⟩
  rw [List.count_reverse, List.count_reverse]
  exact h.excess

theorem argumentListOpen_reverse_iff :
    argumentListOpen 0 before.reverse = true ↔ ∃ part, part <:+ before ∧ LeavesOpen 0 part := by
  rw [argumentListOpen_eq_true_iff]
  constructor
  · rintro ⟨part, hpart, hopen⟩
    refine ⟨part.reverse, ?_, hopen.reverse⟩
    rwa [← List.reverse_prefix, List.reverse_reverse]
  · rintro ⟨part, hpart, hopen⟩
    exact ⟨part.reverse, List.reverse_prefix.mpr hpart, hopen.reverse⟩

/-! ## Member access -/

theorem endsInAccess_reverse_iff :
    endsInAccess t.reverse = true ↔ Text.ofString "." <:+ t ∨ Text.ofString "->" <:+ t := by
  have hdot : (Text.ofString ".").reverse = [unit '.'] := rfl
  have harrow : (Text.ofString "->").reverse = [unit '>', unit '-'] := rfl
  rw [← List.reverse_prefix, ← @List.reverse_prefix _ (Text.ofString "->"), hdot, harrow]
  cases t.reverse with
  | nil => simp [endsInAccess]
  | cons u rest =>
    rw [List.cons_prefix_cons, List.cons_prefix_cons, eq_comm (b := u), eq_comm (b := u)]
    cases rest with
    | nil => simp [endsInAccess]
    | cons v rest =>
      rw [List.cons_prefix_cons, eq_comm (b := v)]
      simp [endsInAccess]

theorem memberAccess_iff :
    memberAccess before = true ↔ Text.ofString "." <:+ stem before ∨ Text.ofString "->" <:+ stem before := by
  rw [memberAccess, ← endsInAccess_reverse_iff, stem, List.reverse_reverse]

/-- The test looks at what stands before the word that ends at the cursor, wherever that word starts. -/
theorem memberAccess_take_iff (hk : k ≤ t.length) :
    memberAccess (t.take k) = true ↔ ∃ start, IsWordStart t k start ∧
      (Text.ofString "." <:+ t.take start ∨ Text.ofString "->" <:+ t.take start) := by
  simp only [isWordStart_iff hk, exists_eq_left, take_length_stem]
  exact memberAccess_iff

/-! ## Contexts in code -/

/-- The context where no string, comment or directive line is. -/
theorem of_eq_of_code (hstring : of before line ≠ .string) (hcomment : of before line ≠ .comment)
    (hinclude : of before line ≠ .includeLine) (hdirective : of before line ≠ .directive) :
    of before line =
      if argumentListOpen 0 before.reverse then .arguments else if memberAccess before then .member else .general := by
  unfold of at *
  split_ifs at * <;> first | rfl | contradiction

end Context

/-- In code, the cursor is in an argument list just when some part of the text that ends there leaves a parenthesis
open and has no brace in it. Elsewhere it is at a member just when the word before it stands right behind a dot or an
arrow, and the context of all other places is the general one. -/
theorem classify_of_code (hk : k ≤ t.length) :
    ∃ c, classify t (.finite k) = .ok c ∧
      (c ≠ .string → c ≠ .comment → c ≠ .includeLine → c ≠ .directive →
        (c = .arguments ↔ ∃ part, part <:+ t.take k ∧ unit '\x7b' ∉ part ∧ unit '\x7d' ∉ part ∧
          part.count (unit ')') < part.count (unit '(')) ∧
        (c ≠ .arguments → (c = .member ↔ ∃ start, IsWordStart t k start ∧
          (Text.ofString "." <:+ t.take start ∨ Text.ofString "->" <:+ t.take start))) ∧
        (c ≠ .arguments → c ≠ .member → c = .general)) := by
  refine ⟨Context.atCursor t k, classify_finite hk, fun hstring hcomment hinclude hdirective => ?_⟩
  have hopen : Context.argumentListOpen 0 (t.take k).reverse = true ↔
      ∃ part, part <:+ t.take k ∧ unit '\x7b' ∉ part ∧ unit '\x7d' ∉ part ∧
        part.count (unit ')') < part.count (unit '(') := by
    rw [Context.argumentListOpen_reverse_iff]
    refine exists_congr fun part => and_congr_right fun _ => ?_
    constructor
    · intro h
      exact ⟨h.noOpening, h.noClosing, h.excess⟩
    · rintro ⟨hopening, hclosing, hexcess⟩
      exact ⟨hopening, hclosing, hexcess⟩
  rw [← hopen, ← Context.memberAccess_take_iff hk, Context.atCursor,
    Context.of_eq_of_code hstring hcomment hinclude hdirective]
  by_cases harguments : Context.argumentListOpen 0 (t.take k).reverse = true
  · rw [if_pos harguments]
    exact ⟨iff_of_true rfl harguments, fun hne => absurd rfl hne, fun hne => absurd rfl hne⟩
  rw [if_neg harguments]
  by_cases hmember : Context.memberAccess (t.take k) = true
  · rw [if_pos hmember]
    exact ⟨iff_of_false (by decide) harguments, fun _ => iff_of_true rfl hmember, fun _ hne => absurd rfl hne⟩
  · rw [if_neg hmember]
    exact ⟨iff_of_false (by decide) harguments, fun _ => iff_of_false (by decide) hmember, fun _ _ => rfl⟩

/-- Behind a list that is left open before a brace and one that is closed, a member is being typed. -/
theorem classify_of_code_member :
    let document : Text := "if (a \x7b g(b); p->na"
    19 ≤ document.length ∧ classify document (.finite (19 : Nat)) = .ok .member ∧
    (¬∃ part, part <:+ document.take 19 ∧ unit '\x7b' ∉ part ∧ unit '\x7d' ∉ part ∧
      part.count (unit ')') < part.count (unit '(')) ∧
    ∃ start, IsWordStart document 19 start ∧
      (Text.ofString "." <:+ document.take start ∨ Text.ofString "->" <:+ document.take start) := by
  intro document
  have hlength : 19 ≤ document.length := by decide
  have hmember : classify document (.finite (19 : Nat)) = .ok .member :=
    classify_finite_eq_ok_iff.mpr (by decide +kernel)
  obtain ⟨c, hclassify, hcode⟩ := classify_of_code hlength
  obtain rfl : .member = c := Except.ok.inj (hmember.symm.trans hclassify)
  obtain ⟨harguments, hbehind, _⟩ := hcode nofun nofun nofun nofun
  exact ⟨hlength, hmember, mt harguments.mpr nofun, (hbehind nofun).mp rfl⟩

end CCompletion
