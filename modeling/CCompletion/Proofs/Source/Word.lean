import CCompletion.Source.Word

/-!
# The word before a cursor

A text is the word at its end behind a stem at whose end no identifier unit stands. Behind such a stem every run
of identifier units is the whole word, so it begins at one place only.
-/

namespace CCompletion

variable {s t w : Text} {u : CodeUnit} {k : Nat}

/-- All units of a text belong to identifiers. -/
def Text.IsRun (t : Text) : Prop := ∀ u ∈ t, isIdentifierUnit u = true

/-- No identifier unit stands at the end of a text. -/
def Text.EndsOutsideWord (t : Text) : Prop := ∀ u ∈ t.getLast?, isIdentifierUnit u = false

/-- What stands before the word at the end of a text. -/
def stem (t : Text) : Text := (t.reverse.dropWhile isIdentifierUnit).reverse

theorem Text.IsRun.notMem (h : t.IsRun) (hu : isIdentifierUnit u = false) : u ∉ t := by
  intro hmem
  rw [h u hmem] at hu
  cases hu

theorem Text.isRun_of_isIdentifier (h : t.isIdentifier = true) : t.IsRun := by
  cases t with
  | nil => cases h
  | cons u rest =>
    rw [Text.isIdentifier, Bool.and_eq_true] at h
    exact List.forall_mem_cons.mpr ⟨isIdentifierUnit_start h.1, List.all_eq_true.mp h.2⟩

theorem Text.isRun_of_isDigit (h : ∀ u ∈ t, isDigit u = true) : t.IsRun := by
  intro u hu
  rw [isIdentifierUnit, h u hu, Bool.or_true]

theorem Text.IsRun.append (hs : s.IsRun) (ht : t.IsRun) : Text.IsRun (s ++ t) :=
  List.forall_mem_append.mpr ⟨hs, ht⟩

theorem Text.ne_nil_of_isIdentifier (h : t.isIdentifier = true) : t ≠ [] := by
  rintro rfl
  cases h

theorem stem_append_trailingWord (t : Text) : stem t ++ trailingWord t = t := by
  rw [stem, trailingWord, ← List.reverse_append, List.takeWhile_append_dropWhile, List.reverse_reverse]

theorem isRun_trailingWord (t : Text) : (trailingWord t).IsRun := by
  intro u hu
  rw [trailingWord, List.mem_reverse] at hu
  exact List.all_eq_true.mp List.all_takeWhile u hu

theorem endsOutsideWord_stem (t : Text) : (stem t).EndsOutsideWord := by
  intro u hu
  have hfirst := List.head?_dropWhile_not isIdentifierUnit t.reverse
  rw [stem, List.getLast?_reverse] at hu
  rwa [hu] at hfirst

theorem takeWhile_reverse_of_getLast? {holds : CodeUnit → Bool} (h : ∀ u ∈ s.getLast?, holds u = false) :
    s.reverse.takeWhile holds = [] := by
  rw [List.getLast?_eq_head?_reverse] at h
  cases hs : s.reverse with
  | nil => rfl
  | cons u rest =>
    rw [hs] at h
    exact List.takeWhile_cons_of_neg (by rw [h u rfl]; decide)

theorem trailingWord_append (hs : s.EndsOutsideWord) (hw : w.IsRun) : trailingWord (s ++ w) = w := by
  have hunits : ∀ u ∈ w.reverse, isIdentifierUnit u = true := fun u hu => hw u (List.mem_reverse.mp hu)
  rw [trailingWord, List.reverse_append, List.takeWhile_append_of_pos hunits,
    takeWhile_reverse_of_getLast? hs, List.append_nil, List.reverse_reverse]

theorem stem_append (hs : s.EndsOutsideWord) (hw : w.IsRun) : stem (s ++ w) = s := by
  have hsplit := stem_append_trailingWord (s ++ w)
  rw [trailingWord_append hs hw] at hsplit
  exact List.append_cancel_right hsplit

theorem stem_eq_nil_iff : stem t = [] ↔ t.IsRun := by
  constructor
  · intro h
    have hword := stem_append_trailingWord t
    rw [h, List.nil_append] at hword
    exact hword ▸ isRun_trailingWord t
  · intro hrun
    exact stem_append (s := []) nofun hrun

/-- The word that ends at `k` begins at `start`: identifier units fill the place between them, and none stands
before `start`. -/
structure IsWordStart (t : Text) (k start : Nat) : Prop where
  le : start ≤ k
  inside : ∀ i, start ≤ i → i < k → ∀ u ∈ t[i]?, isIdentifierUnit u = true
  before : ∀ i, i + 1 = start → ∀ u ∈ t[i]?, isIdentifierUnit u = false

theorem IsWordStart.le_of_isWordStart {start start' : Nat} (hk : k ≤ t.length) (h : IsWordStart t k start)
    (h' : IsWordStart t k start') : start' ≤ start := by
  refine Nat.le_of_not_lt fun hlt => ?_
  -- The unit before the later start would belong to the word and stand outside it.
  have hle := h'.le
  have hi : start' - 1 < t.length := by omega
  have hget : t[start' - 1]? = some t[start' - 1] := List.getElem?_eq_getElem hi
  have hinside := h.inside (start' - 1) (by omega) (by omega) _ hget
  have hbefore := h'.before (start' - 1) (by omega) _ hget
  rw [hinside] at hbefore
  cases hbefore

theorem length_stem_add (t : Text) : (stem t).length + (trailingWord t).length = t.length := by
  rw [← List.length_append, stem_append_trailingWord]

theorem take_length_stem (t : Text) (k : Nat) : t.take (stem (t.take k)).length = stem (t.take k) := by
  have hprefix : stem (t.take k) <+: t :=
    ((stem (t.take k)).prefix_append _).trans
      ((stem_append_trailingWord (t.take k)).symm ▸ List.take_prefix k t)
  exact (List.prefix_iff_eq_take.mp hprefix).symm

theorem isWordStart_stem (hk : k ≤ t.length) : IsWordStart t k (stem (t.take k)).length := by
  have hlength := length_stem_add (t.take k)
  have hsplit := stem_append_trailingWord (t.take k)
  rw [List.length_take, Nat.min_eq_left hk] at hlength
  refine ⟨by omega, fun i hi hik u hu => ?_, fun i hi u hu => ?_⟩
  · rw [← List.getElem?_take_of_lt hik, ← hsplit, List.getElem?_append_right hi] at hu
    exact isRun_trailingWord _ u (List.mem_of_getElem? hu)
  · have hik : i < k := by omega
    rw [← List.getElem?_take_of_lt hik, ← hsplit, List.getElem?_append_left (by omega)] at hu
    refine endsOutsideWord_stem (t.take k) u ?_
    rwa [List.getLast?_eq_getElem?, ← hi, Nat.add_sub_cancel]

theorem isWordStart_iff {start : Nat} (hk : k ≤ t.length) :
    IsWordStart t k start ↔ start = (stem (t.take k)).length := by
  have hstem := isWordStart_stem hk
  refine ⟨fun h => ?_, fun h => h ▸ hstem⟩
  exact Nat.le_antisymm (hstem.le_of_isWordStart hk h) (h.le_of_isWordStart hk hstem)

end CCompletion
