import CCompletion.Text.Basic

/-!
# Searching a text

Searching from either end finds the first or the last place at which a needle stands, and nothing where it
stands nowhere.
-/

namespace CCompletion.Text

variable {needle t : Text} {i : Nat}

/-- A needle stands at an offset of a text. -/
def StandsAt (needle t : Text) (i : Nat) : Prop := needle <+: t.drop i

instance (needle t : Text) (i : Nat) : Decidable (StandsAt needle t i) :=
  inferInstanceAs (Decidable (needle <+: t.drop i))

theorem standsAt_zero : StandsAt needle t 0 ↔ needle.isPrefixOf t = true :=
  List.isPrefixOf_iff_prefix.symm

theorem standsAt_drop {k : Nat} : StandsAt needle (t.drop k) i ↔ StandsAt needle t (k + i) := by
  rw [StandsAt, StandsAt, List.drop_drop]

theorem standsAt_take {k : Nat} :
    StandsAt needle (t.take k) i ↔ StandsAt needle t i ∧ needle.length ≤ k - i := by
  rw [StandsAt, List.drop_take, List.prefix_take_iff, StandsAt]

theorem standsAt_pair {a b : CodeUnit} :
    StandsAt [a, b] t i ↔ t[i]? = some a ∧ t[i + 1]? = some b := by
  rw [StandsAt, ← List.getElem?_drop, ← Nat.add_zero i, ← List.getElem?_drop, Nat.add_zero]
  cases t.drop i with
  | nil => simp
  | cons u rest =>
    cases rest with
    | nil => simp
    | cons v rest => simp [List.cons_prefix_cons, eq_comm]

theorem append_drop_of_standsAt (h : StandsAt needle t i) :
    needle ++ t.drop (i + needle.length) = t.drop i := by
  have hdrop : needle ++ (t.drop i).drop needle.length = t.drop i := List.prefix_iff_eq_append.mp h
  rwa [List.drop_drop] at hdrop

/-- A text around a place where the needle stands. -/
theorem take_append_drop_of_standsAt (h : StandsAt needle t i) :
    t.take i ++ (needle ++ t.drop (i + needle.length)) = t := by
  rw [append_drop_of_standsAt h, List.take_append_drop]

theorem lt_length_of_standsAt (h : StandsAt needle t i) (hneedle : needle ≠ []) : i < t.length := by
  have hlength : needle.length ≤ (t.drop i).length := h.length_le
  have hpos : 0 < needle.length := List.length_pos_iff.mpr hneedle
  rw [List.length_drop] at hlength
  omega

theorem contains_eq_true_iff : contains needle t = true ↔ needle <:+: t := by
  induction t with
  | nil => rw [contains, List.isEmpty_iff, List.infix_nil]
  | cons u t ih => rw [contains, Bool.or_eq_true, ih, List.isPrefixOf_iff_prefix, List.infix_cons_iff]

theorem indexOf?_eq_none_iff : indexOf? needle t = none ↔ ∀ i, ¬StandsAt needle t i := by
  induction t with
  | nil =>
    cases needle with
    | nil => simp [indexOf?, StandsAt]
    | cons v needle => simp [indexOf?, StandsAt]
  | cons u t ih =>
    rw [indexOf?]
    split
    · rename_i h
      have hzero : StandsAt needle (u :: t) 0 := standsAt_zero.mpr h
      exact ⟨fun h => (nomatch h), fun h => absurd hzero (h 0)⟩
    · rename_i h
      rw [Option.map_eq_none_iff, ih]
      refine ⟨fun hnone i => ?_, fun hnone i => hnone (i + 1)⟩
      cases i with
      | zero => exact fun hzero => h (standsAt_zero.mp hzero)
      | succ i => exact hnone i

theorem indexOf?_eq_some_iff :
    indexOf? needle t = some i ↔ i ≤ t.length ∧ StandsAt needle t i ∧ ∀ j < i, ¬StandsAt needle t j := by
  induction t generalizing i with
  | nil =>
    cases needle with
    | nil =>
      cases i with
      | zero => simp [indexOf?, StandsAt]
      | succ i => simp [indexOf?]
    | cons v needle => simp [indexOf?, StandsAt]
  | cons u t ih =>
    rw [indexOf?]
    split
    · rename_i h
      have hzero : StandsAt needle (u :: t) 0 := standsAt_zero.mpr h
      refine ⟨fun hi => ?_, fun ⟨_, _, hfirst⟩ => ?_⟩
      · obtain rfl := Option.some.inj hi
        exact ⟨Nat.zero_le _, hzero, fun j hj => absurd hj (Nat.not_lt_zero j)⟩
      · cases i with
        | zero => rfl
        | succ i => exact absurd hzero (hfirst 0 (Nat.succ_pos i))
    · rename_i h
      have hzero : ¬StandsAt needle (u :: t) 0 := fun hzero => h (standsAt_zero.mp hzero)
      cases i with
      | zero =>
        refine ⟨fun hi => ?_, fun ⟨_, hstands, _⟩ => absurd hstands hzero⟩
        obtain ⟨_, _, hsucc⟩ := Option.map_eq_some_iff.mp hi
        cases hsucc
      | succ i =>
        rw [Option.map_eq_some_iff]
        simp only [Nat.add_right_cancel_iff, exists_eq_right, ih, List.length_cons, Nat.add_le_add_iff_right]
        refine and_congr_right fun _ => and_congr_right fun _ => ⟨fun hfirst j hj => ?_, fun hfirst j hj => ?_⟩
        · cases j with
          | zero => exact hzero
          | succ j => exact hfirst j (Nat.lt_of_succ_lt_succ hj)
        · exact hfirst (j + 1) (Nat.succ_lt_succ hj)

theorem lastIndexOf?_eq_none_iff : lastIndexOf? needle t = none ↔ ∀ i, ¬StandsAt needle t i := by
  induction t with
  | nil =>
    cases needle with
    | nil => simp [lastIndexOf?, StandsAt]
    | cons v needle => simp [lastIndexOf?, StandsAt]
  | cons u t ih =>
    rw [lastIndexOf?]
    split
    · rename_i j hj
      have hsome : ¬∀ i, ¬StandsAt needle t i := fun hnone => by
        rw [ih.mpr hnone] at hj
        cases hj
      exact ⟨fun h => (nomatch h), fun h => absurd (fun i => h (i + 1)) hsome⟩
    · rename_i hnone
      rw [ih] at hnone
      split
      · rename_i h
        exact ⟨fun h => (nomatch h), fun hall => absurd (standsAt_zero.mpr h) (hall 0)⟩
      · rename_i h
        refine ⟨fun _ i => ?_, fun _ => rfl⟩
        cases i with
        | zero => exact fun hzero => h (standsAt_zero.mp hzero)
        | succ i => exact hnone i

theorem exists_lastIndexOf?_of_standsAt (h : StandsAt needle t i) : ∃ j, lastIndexOf? needle t = some j := by
  cases hlast : lastIndexOf? needle t with
  | none => exact absurd h (lastIndexOf?_eq_none_iff.mp hlast i)
  | some j => exact ⟨j, rfl⟩

theorem standsAt_of_lastIndexOf? (h : lastIndexOf? needle t = some i) :
    StandsAt needle t i ∧ ∀ j > i, j ≤ t.length → ¬StandsAt needle t j := by
  induction t generalizing i with
  | nil =>
    cases needle with
    | nil =>
      obtain rfl := Option.some.inj h
      exact ⟨List.prefix_rfl, fun j hj hle => by simp at hle; omega⟩
    | cons v needle => cases h
  | cons u t ih =>
    rw [lastIndexOf?] at h
    split at h
    · rename_i k hk
      obtain rfl := Option.some.inj h
      obtain ⟨hstands, hlast⟩ := ih hk
      refine ⟨hstands, fun j hj hle => ?_⟩
      cases j with
      | zero => omega
      | succ j => exact hlast j (by omega) (Nat.le_of_succ_le_succ hle)
    · rename_i hnone
      rw [lastIndexOf?_eq_none_iff] at hnone
      split at h
      · rename_i hzero
        obtain rfl := Option.some.inj h
        refine ⟨standsAt_zero.mpr hzero, fun j hj hle => ?_⟩
        cases j with
        | zero => exact absurd hj (Nat.lt_irrefl 0)
        | succ j => exact hnone j
      · cases h

/-- No needle stands behind its last occurrence. -/
theorem le_of_lastIndexOf? {j : Nat} (hlast : lastIndexOf? needle t = some j) (h : StandsAt needle t i)
    (hneedle : needle ≠ []) : i ≤ j := by
  have hi : i < t.length := lt_length_of_standsAt h hneedle
  refine Nat.le_of_not_lt fun hj => ?_
  exact (standsAt_of_lastIndexOf? hlast).2 i hj (Nat.le_of_lt hi) h

/-- Where a needle stands at the same offsets of two texts, it stands there last at the same one. -/
theorem lastIndexOf?_congr {t' : Text} (hneedle : needle ≠ [])
    (h : ∀ i, StandsAt needle t i ↔ StandsAt needle t' i) : lastIndexOf? needle t = lastIndexOf? needle t' := by
  cases hlast : lastIndexOf? needle t with
  | none =>
    rw [eq_comm, lastIndexOf?_eq_none_iff]
    exact fun i hi => lastIndexOf?_eq_none_iff.mp hlast i ((h i).mpr hi)
  | some i =>
    have hi : StandsAt needle t i := (standsAt_of_lastIndexOf? hlast).1
    obtain ⟨j, hlast'⟩ := exists_lastIndexOf?_of_standsAt ((h i).mp hi)
    have hj : StandsAt needle t' j := (standsAt_of_lastIndexOf? hlast').1
    rw [hlast', Nat.le_antisymm (le_of_lastIndexOf? hlast' ((h i).mp hi) hneedle)
      (le_of_lastIndexOf? hlast ((h j).mpr hj) hneedle)]

/-- A text in which the second unit of a pair does not stand adds no place where the pair stands. -/
theorem standsAt_pair_append {a b : CodeUnit} {s : Text} (h : b ∉ t) :
    StandsAt [a, b] (s ++ t) i ↔ StandsAt [a, b] s i := by
  rw [standsAt_pair, standsAt_pair]
  by_cases hi : i + 1 < s.length
  · rw [List.getElem?_append_left (by omega), List.getElem?_append_left hi]
  · rw [List.getElem?_append_right (by omega : s.length ≤ i + 1), List.getElem?_eq_none (by omega : s.length ≤ i + 1)]
    exact iff_of_false (fun hb => h (List.mem_of_getElem? hb.2)) (fun hb => nomatch hb.2)

end CCompletion.Text
