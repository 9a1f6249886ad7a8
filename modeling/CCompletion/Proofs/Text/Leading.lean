import CCompletion.Proofs.Source.Word
import CCompletion.Text.Leading
import Mathlib.Data.List.Basic

/-!
# What a text starts with

Each reader of the start of a text is known by what it has read. An identifier is read whole, so that no
identifier unit follows it.
-/

namespace CCompletion.Text

variable {word name rest rest' t : Text} {u : CodeUnit} {p : CodeUnit → Bool}

theorem after?_eq_some_iff : after? word t = some rest ↔ t = word ++ rest := by
  rw [after?]
  split
  · rename_i h
    obtain ⟨tail, rfl⟩ := List.isPrefixOf_iff_prefix.mp h
    rw [List.drop_left, Option.some.injEq, List.append_right_inj, eq_comm]
  · rename_i h
    refine iff_of_false nofun ?_
    rintro rfl
    exact h (List.isPrefixOf_iff_prefix.mpr (List.prefix_append word rest))

theorem afterUnit?_eq_some_iff : afterUnit? u t = some rest ↔ t = u :: rest := by
  cases t with
  | nil => exact iff_of_false nofun nofun
  | cons v t =>
    rw [afterUnit?, List.cons.injEq]
    split
    · rename_i h
      rw [Option.some.injEq, and_iff_right h]
    · rename_i h
      exact iff_of_false nofun fun hcons => h hcons.1

/-! ## Words -/

theorem startsInWord_eq_false_iff : startsInWord t = false ↔ ∀ u ∈ t.head?, isIdentifierUnit u = false := by
  cases t with
  | nil => exact iff_of_true rfl nofun
  | cons u t => simp [startsInWord]

theorem isIdentifierUnit_of_startsInWord (h : startsInWord t = true) (hu : u ∈ t.head?) :
    isIdentifierUnit u = true := by
  cases t with
  | nil => cases hu
  | cons v t => exact Option.some.inj hu ▸ h

theorem startsInWord_of_isRun (hne : word ≠ []) (h : word.IsRun) (rest : Text) :
    startsInWord (word ++ rest) = true := by
  obtain ⟨u, word, rfl⟩ := List.exists_cons_of_ne_nil hne
  exact h u List.mem_cons_self

theorem startsInWord_of_isIdentifier (h : name.isIdentifier = true) (rest : Text) :
    startsInWord (name ++ rest) = true :=
  startsInWord_of_isRun (ne_nil_of_isIdentifier h) (isRun_of_isIdentifier h) rest

theorem startsInWord_append (ht : startsInWord t = false) (hrest : startsInWord rest = false) :
    startsInWord (t ++ rest) = false := by
  cases t with
  | nil => exact hrest
  | cons u t => exact ht

theorem takeWhile_eq_nil_of_startsInWord (h : startsInWord t = false) :
    t.takeWhile isIdentifierUnit = [] := by
  cases t with
  | nil => rfl
  | cons u t => exact List.takeWhile_cons_of_neg (by rw [startsInWord] at h; simp [h])

theorem startsInWord_dropWhile (t : Text) : startsInWord (t.dropWhile isIdentifierUnit) = false := by
  induction t with
  | nil => rfl
  | cons u t ih =>
    by_cases hu : isIdentifierUnit u = true
    · rw [List.dropWhile_cons_of_pos hu, ih]
    · rwa [List.dropWhile_cons_of_neg hu, startsInWord, ← Bool.not_eq_true]

/-- A run with no identifier unit behind it is the whole run that a text starts with. -/
theorem takeWhile_of_isRun (h : word.IsRun) (hrest : startsInWord rest = false) :
    (word ++ rest).takeWhile isIdentifierUnit = word := by
  rw [List.takeWhile_append_of_pos h, takeWhile_eq_nil_of_startsInWord hrest, List.append_nil]

theorem dropWhile_of_isRun (h : word.IsRun) (hrest : startsInWord rest = false) :
    (word ++ rest).dropWhile isIdentifierUnit = rest := by
  have hsplit := List.takeWhile_append_dropWhile (p := isIdentifierUnit) (l := word ++ rest)
  rwa [takeWhile_of_isRun h hrest, List.append_right_inj] at hsplit

theorem identifier?_eq_some_iff :
    identifier? t = some (name, rest) ↔ t = name ++ rest ∧ name.isIdentifier = true ∧ startsInWord rest = false := by
  constructor
  · intro h
    refine ⟨identifier?_append h, ?_⟩
    cases t with
    | nil => cases h
    | cons u t =>
      rw [identifier?] at h
      split at h
      · rename_i hstart
        obtain ⟨rfl, rfl⟩ := Prod.mk.inj (Option.some.inj h)
        refine ⟨?_, startsInWord_dropWhile t⟩
        rw [isIdentifier, hstart, List.all_takeWhile]
        rfl
      · cases h
  · rintro ⟨rfl, hname, hrest⟩
    cases name with
    | nil => cases hname
    | cons u name =>
      rw [isIdentifier, Bool.and_eq_true, List.all_eq_true] at hname
      rw [List.cons_append, identifier?, if_pos hname.1, takeWhile_of_isRun hname.2 hrest,
        dropWhile_of_isRun hname.2 hrest]

/-! ## What leads to a word -/

theorem endsOutsideWord_append (h : word.EndsOutsideWord) (hne : word ≠ []) (t : Text) :
    EndsOutsideWord (t ++ word) := by
  rwa [EndsOutsideWord, List.getLast?_append_of_ne_nil t hne]

theorem EndsOutsideWord.of_append (h : EndsOutsideWord (t ++ word)) (hne : word ≠ []) : word.EndsOutsideWord := by
  rwa [EndsOutsideWord, List.getLast?_append_of_ne_nil t hne] at h

theorem endsOutsideWord_concat (t : Text) (hu : isIdentifierUnit u = false) : EndsOutsideWord (t ++ [u]) := by
  intro v hv
  rw [List.getLast?_concat] at hv
  rwa [← Option.some.inj hv]

/-- Before `rest`, the text has something that ends outside of words. -/
def LeadsTo (t rest : Text) : Prop := ∃ read, read ≠ [] ∧ EndsOutsideWord read ∧ t = read ++ rest

theorem leadsTo_append (hne : word ≠ []) (hword : ∀ u ∈ word, isIdentifierUnit u = false) (rest : Text) :
    LeadsTo (word ++ rest) rest :=
  ⟨word, hne, fun u hu => hword u (List.mem_of_getLast? hu), rfl⟩

theorem LeadsTo.append (h : t.LeadsTo rest) (before : Text) : LeadsTo (before ++ t) rest := by
  obtain ⟨read, hne, hends, rfl⟩ := h
  exact ⟨before ++ read, List.append_ne_nil_of_right_ne_nil before hne, endsOutsideWord_append hends hne before,
    (List.append_assoc ..).symm⟩

theorem LeadsTo.length_lt (h : t.LeadsTo rest) : rest.length < t.length := by
  obtain ⟨read, hne, _, rfl⟩ := h
  have hpos : 0 < read.length := List.length_pos_iff.mpr hne
  rw [List.length_append]
  omega

theorem LeadsTo.drop_eq (h : t.LeadsTo rest) : t.drop (t.length - rest.length) = rest := by
  obtain ⟨read, _, _, rfl⟩ := h
  rw [List.length_append, Nat.add_sub_cancel, List.drop_left]

theorem isIdentifierUnit_of_isBlank (hu : isBlank u = true) : isIdentifierUnit u = false := by
  rw [← Bool.not_eq_true]
  intro hword
  rw [isBlank_of_isIdentifierUnit hword] at hu
  cases hu

theorem isIdentifierUnit_of_isBlankOrStar (hu : isBlankOrStar u = true) : isIdentifierUnit u = false := by
  rw [isBlankOrStar, Bool.or_eq_true, beq_iff_eq] at hu
  obtain hblank | rfl := hu
  · exact isIdentifierUnit_of_isBlank hblank
  · rfl

theorem isBlankOrStar_of_isIdentifierUnit (hu : isIdentifierUnit u = true) : isBlankOrStar u = false := by
  rw [← Bool.not_eq_true]
  intro hblank
  rw [isIdentifierUnit_of_isBlankOrStar hblank] at hu
  cases hu

theorem isIdentifierUnit_of_mem_getLast? (hrun : word.IsRun) (hne : word ≠ []) {t : Text}
    (hu : u ∈ List.getLast? (t ++ word)) : isIdentifierUnit u = true := by
  rw [List.getLast?_append_of_ne_nil t hne] at hu
  exact hrun u (List.mem_of_getLast? hu)

theorem isBlankOrStar_of_mem_getLast? (hrun : word.IsRun) (hne : word ≠ []) (t : Text) :
    ∀ u ∈ List.getLast? (t ++ word), isBlankOrStar u = false := by
  intro u hu
  exact isBlankOrStar_of_isIdentifierUnit (isIdentifierUnit_of_mem_getLast? hrun hne hu)

theorem endsOutsideWord_append_gap (h : ∀ u ∈ word, isBlankOrStar u = true) (hne : word ≠ []) (t : Text) :
    EndsOutsideWord (t ++ word) :=
  endsOutsideWord_append (fun u hu => isIdentifierUnit_of_isBlankOrStar (h u (List.mem_of_getLast? hu))) hne t

theorem isBlankOrStar_of_isBlank (hu : isBlank u = true) : isBlankOrStar u = true := by
  rw [isBlankOrStar, hu, Bool.true_or]

theorem afterRun?_eq_some (h : afterRun? p t = some rest) :
    ∃ run, run ≠ [] ∧ (∀ u ∈ run, p u = true) ∧ t = run ++ rest := by
  rw [afterRun?] at h
  split at h
  · cases h
  · rename_i hrun
    obtain rfl := Option.some.inj h
    exact ⟨_, fun hnil => hrun (List.isEmpty_iff.mpr hnil), List.all_eq_true.mp List.all_takeWhile,
      List.takeWhile_append_dropWhile.symm⟩

theorem dropWhile_append_of_head? (h : ∀ u ∈ word, p u = true) (hrest : ∀ u ∈ rest.head?, p u = false) :
    (word ++ rest).dropWhile p = rest := by
  rw [List.dropWhile_append_of_pos h]
  cases rest with
  | nil => rfl
  | cons u rest => exact List.dropWhile_cons_of_neg (by rw [hrest u rfl]; exact Bool.false_ne_true)

theorem dropWhile_append_cons (h : ∀ u ∈ word, p u = true) (hu : p u = false) (rest : Text) :
    (word ++ u :: rest).dropWhile p = u :: rest :=
  dropWhile_append_of_head? h fun _ hv => Option.some.inj hv ▸ hu

theorem afterRun?_append (hne : word ≠ []) (h : ∀ u ∈ word, p u = true) (hrest : ∀ u ∈ rest.head?, p u = false) :
    afterRun? p (word ++ rest) = some rest := by
  obtain ⟨u, word, rfl⟩ := List.exists_cons_of_ne_nil hne
  rw [afterRun?, List.cons_append, List.takeWhile_cons_of_pos (h u List.mem_cons_self), List.isEmpty_cons,
    if_neg Bool.false_ne_true, ← List.cons_append, dropWhile_append_of_head? h hrest]

theorem leadsTo_dropWhile (hp : ∀ u, p u = true → isIdentifierUnit u = false) (hu : isIdentifierUnit u = false)
    (t : Text) : LeadsTo (u :: t) (t.dropWhile p) := by
  have hsplit : u :: t = (u :: t.takeWhile p) ++ t.dropWhile p := by
    rw [List.cons_append, List.takeWhile_append_dropWhile]
  rw [hsplit]
  refine leadsTo_append (List.cons_ne_nil _ _) (fun v hv => ?_) _
  rcases List.mem_cons.mp hv with rfl | hv
  · exact hu
  · exact hp v (List.all_eq_true.mp List.all_takeWhile v hv)

theorem startsInWord_blanks_append (h : ∀ u ∈ word, isBlank u = true) (hrest : startsInWord rest = false) :
    startsInWord (word ++ rest) = false := by
  refine startsInWord_append (startsInWord_eq_false_iff.mpr fun u hu => ?_) hrest
  exact isIdentifierUnit_of_isBlank (h u (List.mem_of_mem_head? hu))

/-! ## What is read before a rest -/

/-- A run at the start of a text does not reach over an end of no word. -/
theorem exists_append_of_isRun {before : Text} (hne : before ≠ []) (hends : before.EndsOutsideWord) (hrun : word.IsRun)
    (h : before ++ rest = word ++ rest') :
    ∃ left : Text, left ≠ [] ∧ left.EndsOutsideWord ∧ before = word ++ left ∧ rest' = left ++ rest := by
  have hlast : before.getLast hne ∉ word := hrun.notMem (hends _ (List.getLast?_eq_some_getLast hne))
  rcases List.append_eq_append_iff.mp h with ⟨taken, hword, _⟩ | ⟨left, hbefore, hrest⟩
  · exact absurd (hword ▸ List.mem_append_left taken (List.getLast_mem hne)) hlast
  · have hleft : left ≠ [] := by
      rintro rfl
      rw [List.append_nil] at hbefore
      exact hlast (hbefore ▸ List.getLast_mem hne)
    exact ⟨left, hleft, EndsOutsideWord.of_append (t := word) (hbefore ▸ hends) hleft, hbefore, hrest⟩

/-- What is found behind blanks is found before a rest that starts otherwise. -/
theorem exists_append_of_skipBlanks {before : Text} {v : CodeUnit} (hblank : isBlank v = false) (hne : v ≠ u)
    (h : skipBlanks (before ++ v :: rest) = u :: rest') : ∃ left, rest' = left ++ v :: rest := by
  induction before with
  | nil =>
    rw [List.nil_append, skipBlanks, List.dropWhile_cons_of_neg (by rw [hblank]; exact Bool.false_ne_true)] at h
    exact absurd (List.cons.inj h).1 hne
  | cons w before ih =>
    rw [List.cons_append, skipBlanks] at h
    by_cases hw : isBlank w = true
    · rw [List.dropWhile_cons_of_pos hw] at h
      exact ih h
    · rw [List.dropWhile_cons_of_neg hw] at h
      exact ⟨before, (List.cons.inj h).2.symm⟩

end CCompletion.Text
