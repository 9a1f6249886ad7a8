import CCompletion.Proofs.Text.Search
import CCompletion.Source.Mask
import Mathlib.Data.List.Forall2

/-!
# The steps of the masking automaton

In each region the automaton reads either one unit or a pair of units. Masking replaces units other than
newlines by blanks and changes nothing else.
-/

namespace CCompletion.Region

variable {r next : Region} {u v a b : CodeUnit} {t rest : Text}

/-- In this region, `u` is read alone when `rest` follows it. -/
def ReadsAlone (r : Region) (u : CodeUnit) (rest : Text) : Prop :=
  ∀ v ∈ rest.head?, r.pair? u v = none

theorem readsAlone_of_pair?_eq_none (h : ∀ v, r.pair? u v = none) (rest : Text) : r.ReadsAlone u rest :=
  fun v _ => h v

theorem readsAlone_blockComment (h : ¬Text.StandsAt "*/" (u :: rest) 0) :
    blockComment.ReadsAlone u rest := by
  intro v hv
  rw [pair?, if_neg]
  rintro ⟨rfl, rfl⟩
  exact h (Text.standsAt_pair.mpr ⟨rfl, by rwa [List.head?_eq_getElem?] at hv⟩)

/-- The pairs: two that open a comment, one that closes it, and a protected unit in a literal. -/
theorem pair_cases (h : r.pair? u v = some (a, b, next)) :
    (r = .code ∧ u = unit '/' ∧ v = unit '/' ∧ a = u ∧ b = v ∧ next = .lineComment) ∨
    (r = .code ∧ u = unit '/' ∧ v = unit '*' ∧ a = u ∧ b = v ∧ next = .blockComment) ∨
    (r = .blockComment ∧ u = unit '*' ∧ v = unit '/' ∧ a = u ∧ b = v ∧ next = .code) ∨
    ∃ q, r = .literal q ∧ u = unit '\\' ∧ a = unit ' ' ∧ b = blanked v ∧ next = .literal q := by
  cases r with
  | code =>
    rw [pair?] at h
    split at h
    · rename_i hslashes
      cases h
      exact .inl ⟨rfl, hslashes.1, hslashes.2, rfl, rfl, rfl⟩
    · split at h
      · rename_i hstar
        cases h
        exact .inr (.inl ⟨rfl, hstar.1, hstar.2, rfl, rfl, rfl⟩)
      · cases h
  | lineComment => cases h
  | blockComment =>
    rw [pair?] at h
    split at h
    · rename_i hclose
      cases h
      exact .inr (.inr (.inl ⟨rfl, hclose.1, hclose.2, rfl, rfl, rfl⟩))
    · cases h
  | literal q =>
    rw [pair?] at h
    split at h
    · rename_i hbackslash
      cases h
      exact .inr (.inr (.inr ⟨q, rfl, hbackslash, rfl, rfl, rfl⟩))
    · cases h

theorem mask_of_pair (h : r.pair? u v = some (a, b, next)) (rest : Text) :
    r.mask (u :: v :: rest) = a :: b :: next.mask rest := by
  rw [mask, h]

theorem mask_of_readsAlone (h : r.ReadsAlone u rest) :
    r.mask (u :: rest) = (r.single u).1 :: (r.single u).2.mask rest := by
  cases rest with
  | nil => rfl
  | cons v rest => rw [mask, h v rfl]

theorem after_of_pair (h : r.pair? u v = some (a, b, next)) (rest : Text) :
    r.after (u :: v :: rest) = next.after rest := by
  rw [after, h]

theorem after_of_readsAlone (h : r.ReadsAlone u rest) :
    r.after (u :: rest) = (r.single u).2.after rest := by
  cases rest with
  | nil => rfl
  | cons v rest => rw [after, h v rfl]

/-- The masked form of a unit: itself, or a blank where it is no newline. -/
def Masks (u m : CodeUnit) : Prop := m = u ∨ m = unit ' ' ∧ u ≠ newline

theorem masks_self (u : CodeUnit) : Masks u u := .inl rfl

theorem masks_blanked (u : CodeUnit) : Masks u (blanked u) := by
  unfold blanked
  split
  · rename_i h
    exact .inl h.symm
  · exact .inr ⟨rfl, ‹_›⟩

theorem masks_single (r : Region) (u : CodeUnit) : Masks u (r.single u).1 := by
  cases r with
  | code => exact masks_self u
  | lineComment => exact masks_blanked u
  | blockComment => exact masks_blanked u
  | literal q =>
    rw [single]
    split
    · exact masks_self u
    · rename_i h
      exact .inr ⟨rfl, fun hu => h (.inr hu)⟩

theorem masks_pair (h : r.pair? u v = some (a, b, next)) : Masks u a ∧ Masks v b := by
  obtain ⟨_, _, _, rfl, rfl, _⟩ | ⟨_, _, _, rfl, rfl, _⟩ | ⟨_, _, _, rfl, rfl, _⟩ |
    ⟨q, _, rfl, rfl, rfl, _⟩ := pair_cases h
  · exact ⟨masks_self _, masks_self _⟩
  · exact ⟨masks_self _, masks_self _⟩
  · exact ⟨masks_self _, masks_self _⟩
  · exact ⟨.inr ⟨rfl, by decide⟩, masks_blanked _⟩

/-- Masking works unit by unit. -/
theorem forall₂_masks_mask (r : Region) (t : Text) : List.Forall₂ Masks t (r.mask t) := by
  fun_induction mask r t with
  | case1 => exact .nil
  | case2 r u => exact .cons (masks_single r u) .nil
  | case3 r u v rest a b next h ih => exact .cons (masks_pair h).1 (.cons (masks_pair h).2 ih)
  | case4 r u v rest h ih => exact .cons (masks_single r u) ih

/-- The unit at an offset of the masked text is the masked form of the unit there. -/
theorem exists_masks_of_getElem? (r : Region) {t : Text} {i : Nat} (h : t[i]? = some u) :
    ∃ m, (r.mask t)[i]? = some m ∧ Masks u m := by
  have hall := forall₂_masks_mask r t
  generalize r.mask t = masked at hall ⊢
  induction hall generalizing i with
  | nil => cases h
  | cons hmasks _ ih =>
    cases i with
    | zero =>
      obtain rfl := Option.some.inj h
      exact ⟨_, rfl, hmasks⟩
    | succ i => exact ih h

theorem getElem?_mask_eq_newline_iff (r : Region) (t : Text) (i : Nat) :
    (r.mask t)[i]? = some newline ↔ t[i]? = some newline := by
  constructor
  · intro h
    cases hu : t[i]? with
    | none =>
      rw [List.getElem?_eq_none_iff, ← length_mask r t, ← List.getElem?_eq_none_iff, h] at hu
      cases hu
    | some u =>
      obtain ⟨m, hm, rfl | ⟨rfl, _⟩⟩ := exists_masks_of_getElem? r hu
      · exact hm.symm.trans h
      · rw [h] at hm
        cases hm
  · intro h
    obtain ⟨m, hm, rfl | ⟨_, hne⟩⟩ := exists_masks_of_getElem? r h
    · exact hm
    · exact absurd rfl hne

end CCompletion.Region
