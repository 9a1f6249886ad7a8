import CCompletion.Text.Basic
import Mathlib.Data.List.Sort

/-!
# Order and repetition

Sorting texts by their code units gives a strictly ascending list where no text comes twice, and such a list
is known by its members. Dropping repetitions changes nothing for a fold that takes in each element
only once.
-/

namespace CCompletion

/-! ## Repetitions -/

section Repetitions

variable {α β : Type} [BEq α]

theorem sublist_eraseDups (as : List α) : as.eraseDups.Sublist as := by
  induction hlength : as.length using Nat.strongRecOn generalizing as with
  | ind n ih =>
    cases as with
    | nil => exact List.Sublist.refl _
    | cons a as =>
      rw [List.eraseDups_cons]
      have hfilter := List.length_filter_le (fun b => !b == a) as
      rw [List.length_cons] at hlength
      exact ((ih _ (by omega) _ rfl).trans List.filter_sublist).cons_cons a

variable [LawfulBEq α]

theorem nodup_eraseDups (as : List α) : as.eraseDups.Nodup := by
  induction hlength : as.length using Nat.strongRecOn generalizing as with
  | ind n ih =>
    cases as with
    | nil => exact List.nodup_nil
    | cons a as =>
      rw [List.eraseDups_cons, List.nodup_cons]
      have hfilter := List.length_filter_le (fun b => !b == a) as
      rw [List.length_cons] at hlength
      exact ⟨by simp [List.mem_eraseDups], ih _ (by omega) _ rfl⟩

variable {f : β → α → β} {holds : β → α → Prop}

theorem foldl_filter_of_holds (hsame : ∀ b a, holds b a → f b a = b)
    (hkeep : ∀ b a c, holds b a → holds (f b c) a) {a : α} (as : List α) {b : β} (h : holds b a) :
    (as.filter fun c => !c == a).foldl f b = as.foldl f b := by
  induction as generalizing b with
  | nil => rfl
  | cons c as ih =>
    by_cases hc : c = a
    · subst hc
      rw [List.filter_cons_of_neg (by simp), List.foldl_cons, hsame b c h, ih h]
    · rw [List.filter_cons_of_pos (by simpa using hc), List.foldl_cons, List.foldl_cons,
        ih (hkeep b a c h)]

/-- A fold that takes in an element only when it does not hold it yet is the same without repetitions. -/
theorem foldl_eraseDups (hsame : ∀ b a, holds b a → f b a = b) (hself : ∀ b a, holds (f b a) a)
    (hkeep : ∀ b a c, holds b a → holds (f b c) a) (as : List α) (b : β) :
    as.eraseDups.foldl f b = as.foldl f b := by
  -- Behind `a`, its repetitions are dropped first, and they change nothing as `a` is held from here on.
  induction hlength : as.length using Nat.strongRecOn generalizing as b with
  | ind n ih =>
    cases as with
    | nil => rfl
    | cons a as =>
      have hfilter := List.length_filter_le (fun b => !b == a) as
      rw [List.length_cons] at hlength
      rw [List.eraseDups_cons, List.foldl_cons, List.foldl_cons, ih _ (by omega) _ _ rfl,
        foldl_filter_of_holds hsame hkeep as (hself b a)]

end Repetitions

/-! ## Order -/

section Sorting

variable {α : Type} {cmp : α → α → Ordering}

theorem pairwise_isLE_mergeSort [Std.TransCmp cmp] (as : List α) :
    (as.mergeSort fun a b => (cmp a b).isLE).Pairwise fun a b => (cmp a b).isLE := by
  have htotal (a b : α) : ((cmp a b).isLE || (cmp b a).isLE) = true := by
    have hswap : cmp b a = (cmp a b).swap := Std.OrientedCmp.eq_swap
    rw [hswap]
    cases cmp a b <;> rfl
  exact List.pairwise_mergeSort (fun _ _ _ => Std.TransCmp.isLE_trans) htotal as

/-- Where only equal elements compare as equal, a sorted list without repetitions is sorted strictly. -/
theorem pairwise_lt_of_nodup [Std.LawfulEqCmp cmp] {as : List α}
    (h : as.Pairwise fun a b => (cmp a b).isLE) (hn : as.Nodup) :
    as.Pairwise fun a b => cmp a b = .lt := by
  refine (h.and hn).imp ?_
  rintro a b ⟨hle, hne⟩
  cases hab : cmp a b with
  | lt => rfl
  | eq => exact absurd (Std.LawfulEqCmp.eq_of_compare hab) hne
  | gt => rw [hab] at hle; cases hle

end Sorting

namespace Text

/-- Each text comes strictly before all that follow it, in the order of code units. -/
def Ascending (ts : List Text) : Prop := ts.Pairwise fun a b => compare a b = .lt

instance (ts : List Text) : Decidable (Ascending ts) := inferInstanceAs (Decidable (ts.Pairwise _))

instance : Std.Irrefl fun a b : Text => compare a b = .lt where
  irrefl a h := by
    have heq : compare a a = .eq := Std.ReflCmp.compare_self
    rw [heq] at h
    cases h

instance : Std.Antisymm fun a b : Text => compare a b = .lt where
  antisymm _ _ h h' := absurd h' (Std.OrientedCmp.not_lt_of_lt h)

theorem Ascending.nodup {ts : List Text} (h : Ascending ts) : ts.Nodup := List.Pairwise.nodup h

/-- An ascending list is known by its members. -/
theorem Ascending.eq_of_mem_iff {ts us : List Text} (ht : Ascending ts) (hu : Ascending us)
    (h : ∀ t, t ∈ ts ↔ t ∈ us) : ts = us := List.Pairwise.eq_of_mem_iff ht hu h

theorem sorted_perm (ts : List Text) : (sorted ts).Perm ts := List.mergeSort_perm _ _

theorem length_sorted (ts : List Text) : (sorted ts).length = ts.length := (sorted_perm ts).length_eq

@[simp] theorem mem_sorted {t : Text} {ts : List Text} : t ∈ sorted ts ↔ t ∈ ts :=
  (sorted_perm ts).mem_iff

theorem pairwise_sorted (ts : List Text) : (sorted ts).Pairwise fun a b => (compare a b).isLE :=
  pairwise_isLE_mergeSort ts

theorem ascending_of_pairwise {ts : List Text} (h : ts.Pairwise fun a b => (compare a b).isLE)
    (hn : ts.Nodup) : Ascending ts := pairwise_lt_of_nodup h hn

theorem ascending_sorted {ts : List Text} (h : ts.Nodup) : Ascending (sorted ts) :=
  ascending_of_pairwise (pairwise_sorted ts) ((sorted_perm ts).nodup_iff.mpr h)

/-- Sorted and without repetitions, lists of the same texts are equal. -/
theorem eraseDups_sorted_eq {ts us : List Text} (h : ∀ t, t ∈ ts ↔ t ∈ us) :
    (sorted ts).eraseDups = (sorted us).eraseDups := by
  have hascending (ts : List Text) : Ascending (sorted ts).eraseDups :=
    ascending_of_pairwise ((pairwise_sorted ts).sublist (sublist_eraseDups _)) (nodup_eraseDups _)
  refine (hascending ts).eq_of_mem_iff (hascending us) fun t => ?_
  rw [List.mem_eraseDups, List.mem_eraseDups, mem_sorted, mem_sorted, h t]

end Text
end CCompletion
