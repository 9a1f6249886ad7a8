import CCompletion.Candidate.Rank
import CCompletion.Proofs.Text.Order
import CCompletion.Proofs.Text.Search

/-!
# The ranking of candidates

The order of candidates is total, and no two candidates are alike in it. So the ranking of some candidates is
known from which of them match what was typed: neither their arrangement nor how often each of them was
found can be seen in it.
-/

namespace CCompletion

namespace Kind

theorem mem_all (k : Kind) : k ∈ all := by cases k <;> decide

theorem name_injective : Function.Injective name := by
  have hall : ∀ k ∈ all, ∀ l ∈ all, k.name = l.name → k = l := by decide
  exact fun k l => hall k (mem_all k) l (mem_all l)

theorem zero_notMem_name (k : Kind) : 0 ∉ k.name := by
  have hall : ∀ k ∈ all, 0 ∉ k.name := by decide
  exact hall k (mem_all k)

theorem index_injective : Function.Injective index := fun k _ h => (List.idxOf_inj (mem_all k)).mp h

end Kind

namespace Candidate

variable {a b c : Candidate} {cs ds : List Candidate} {mode : MatchMode} {typed : Text}

/-! ## Keys -/

theorem takeWhile_key (c : Candidate) : c.key.takeWhile (· ≠ 0) = c.kind.name := by
  have hname : ∀ u ∈ c.kind.name, decide (u ≠ 0) = true := by
    intro u hu
    rw [decide_eq_true_iff]
    rintro rfl
    exact c.kind.zero_notMem_name hu
  rw [key, List.takeWhile_append_of_pos hname, List.takeWhile_cons_of_neg (by decide), List.append_nil]

/-- The first zero of a key ends the name of the kind, even where the text has more of them. -/
theorem key_injective : Function.Injective key := by
  intro a b h
  have hkind : a.kind = b.kind := Kind.name_injective (by rw [← takeWhile_key, ← takeWhile_key, h])
  rw [key, key, hkind, List.append_right_inj, List.cons_inj_right] at h
  exact Candidate.ext hkind h

theorem distinct_eq_eraseDups (cs : List Candidate) : distinct cs = cs.eraseDups := by
  have hkey : (fun a b : Candidate => a.key == b.key) = (· == ·) := by
    funext a b
    rw [Bool.eq_iff_iff, beq_iff_eq, beq_iff_eq, key_injective.eq_iff]
  rw [distinct, hkey, List.eraseDups]

theorem mem_distinct : c ∈ distinct cs ↔ c ∈ cs := by rw [distinct_eq_eraseDups, List.mem_eraseDups]

theorem nodup_distinct (cs : List Candidate) : (distinct cs).Nodup := by
  rw [distinct_eq_eraseDups]
  exact nodup_eraseDups cs

/-! ## The order of candidates -/

/-- The lowercase text of `a` comes before that of `b`; where these are the same, the text itself; and where
that is the same as well, the kind. -/
def Before (a b : Candidate) : Prop :=
  compare a.text.toLower b.text.toLower = .lt ∨
    a.text.toLower = b.text.toLower ∧
      (compare a.text b.text = .lt ∨ a.text = b.text ∧ a.kind.index < b.kind.index)

theorem order_eq_lt_iff : order a b = .lt ↔ a.Before b := by
  rw [order, Ordering.then_eq_lt, Ordering.then_eq_lt, Ordering.then_eq_eq,
    Std.LawfulEqCmp.compare_eq_iff_eq, Std.LawfulEqCmp.compare_eq_iff_eq, Nat.compare_eq_lt, Before]
  tauto

theorem order_eq_eq_iff : order a b = .eq ↔ a = b := by
  rw [order, Ordering.then_eq_eq, Ordering.then_eq_eq, Std.LawfulEqCmp.compare_eq_iff_eq,
    Std.LawfulEqCmp.compare_eq_iff_eq, Std.LawfulEqCmp.compare_eq_iff_eq]
  constructor
  · rintro ⟨⟨_, htext⟩, hkind⟩
    exact Candidate.ext (Kind.index_injective hkind) htext
  · rintro rfl
    exact ⟨⟨rfl, rfl⟩, rfl⟩

instance : Std.TransCmp order :=
  inferInstanceAs (Std.TransCmp (compareLex (compareLex (compareOn fun c => c.text.toLower)
    (compareOn Candidate.text)) (compareOn fun c => c.kind.index)))

instance : Std.LawfulEqCmp order where
  eq_of_compare := order_eq_eq_iff.mp

theorem Before.trans (hab : a.Before b) (hbc : b.Before c) : a.Before c := by
  rw [← order_eq_lt_iff] at *
  exact Std.TransCmp.lt_trans hab hbc

theorem Before.asymm (hab : a.Before b) : ¬b.Before a := by
  rw [← order_eq_lt_iff] at *
  exact Std.OrientedCmp.not_lt_of_lt hab

theorem before_trichotomous (a b : Candidate) : a.Before b ∨ a = b ∨ b.Before a := by
  have hswap : order b a = (order a b).swap := Std.OrientedCmp.eq_swap
  rw [← order_eq_lt_iff, ← order_eq_lt_iff, ← order_eq_eq_iff, hswap]
  cases order a b <;> simp

theorem sorted_perm (cs : List Candidate) : (sorted cs).Perm cs := List.mergeSort_perm _ _

theorem pairwise_before_sorted (h : cs.Nodup) : (sorted cs).Pairwise Before := by
  have hnodup : (sorted cs).Nodup := (sorted_perm cs).nodup_iff.mpr h
  exact (pairwise_lt_of_nodup (pairwise_isLE_mergeSort cs) hnodup).imp order_eq_lt_iff.mp

/-! ## Tiers -/

def Starts (typed : Text) (c : Candidate) : Prop := typed.toLower <+: c.text.toLower

/-- In lowercase, the text starts with what was typed, or contains it where that is enough. -/
def Matches (mode : MatchMode) (typed : Text) (c : Candidate) : Prop :=
  match mode with
  | .containing => typed.toLower <:+: c.text.toLower
  | .starting => c.Starts typed

/-- `a` stands before `b` in rankings: those that start with what was typed come first. -/
def Precedes (typed : Text) (a b : Candidate) : Prop :=
  a.Starts typed ∧ ¬b.Starts typed ∨ (a.Starts typed ↔ b.Starts typed) ∧ a.Before b

theorem startsWith_iff : startsWith typed c = true ↔ c.Starts typed := List.isPrefixOf_iff_prefix

theorem containsTyped_iff : containsTyped typed c = true ↔ typed.toLower <:+: c.text.toLower :=
  Text.contains_eq_true_iff

theorem Starts.matches (h : c.Starts typed) : c.Matches mode typed := by
  cases mode with
  | containing => exact h.isInfix
  | starting => exact h

theorem Precedes.asymm (hab : Precedes typed a b) : ¬Precedes typed b a := by
  rintro (⟨hb, ha⟩ | ⟨htier, hba⟩)
  · rcases hab with ⟨ha', _⟩ | ⟨htier, _⟩
    · exact ha ha'
    · exact ha (htier.mpr hb)
  · rcases hab with ⟨ha, hb⟩ | ⟨_, hab⟩
    · exact hb (htier.mpr ha)
    · exact hab.asymm hba

instance : Std.Irrefl (Precedes typed) where
  irrefl _ h := h.asymm h

instance : Std.Antisymm (Precedes typed) where
  antisymm _ _ hab hba := absurd hba hab.asymm

/-! ## Rankings -/

theorem mem_sorted_starting :
    c ∈ sorted ((distinct cs).filter (startsWith typed)) ↔ c ∈ cs ∧ c.Starts typed := by
  rw [(sorted_perm _).mem_iff, List.mem_filter, mem_distinct, startsWith_iff]

theorem mem_sorted_others :
    c ∈ sorted (others mode typed (distinct cs)) ↔
      c ∈ cs ∧ c.Matches mode typed ∧ ¬c.Starts typed := by
  rw [(sorted_perm _).mem_iff]
  cases mode with
  | containing =>
    rw [others, List.mem_filter, mem_distinct, Bool.and_eq_true, Bool.not_eq_true', ← Bool.not_eq_true,
      startsWith_iff, containsTyped_iff, Matches, and_comm (a := ¬_)]
  | starting => simp [others, Matches]

theorem mem_ranked : c ∈ ranked mode typed cs ↔ c ∈ cs ∧ c.Matches mode typed := by
  rw [ranked, List.mem_append, mem_sorted_starting, mem_sorted_others]
  by_cases hstarts : c.Starts typed
  · simp [hstarts, hstarts.matches]
  · simp [hstarts]

theorem nodup_others (h : cs.Nodup) : (others mode typed cs).Nodup := by
  cases mode with
  | containing => exact h.filter _
  | starting => exact List.nodup_nil

theorem pairwise_ranked (mode : MatchMode) (typed : Text) (cs : List Candidate) :
    (ranked mode typed cs).Pairwise (Precedes typed) := by
  rw [ranked, List.pairwise_append]
  -- Within a tier the order of candidates decides, and between the tiers what the text starts with.
  refine ⟨?_, ?_, fun a ha b hb => .inl ⟨(mem_sorted_starting.mp ha).2, (mem_sorted_others.mp hb).2.2⟩⟩
  · refine (pairwise_before_sorted ((nodup_distinct cs).filter _)).imp_of_mem fun ha hb hab => ?_
    exact .inr ⟨iff_of_true (mem_sorted_starting.mp ha).2 (mem_sorted_starting.mp hb).2, hab⟩
  · refine (pairwise_before_sorted (nodup_others (nodup_distinct cs))).imp_of_mem fun ha hb hab => ?_
    exact .inr ⟨iff_of_false (mem_sorted_others.mp ha).2.2 (mem_sorted_others.mp hb).2.2, hab⟩

theorem nodup_ranked (mode : MatchMode) (typed : Text) (cs : List Candidate) :
    (ranked mode typed cs).Nodup := (pairwise_ranked mode typed cs).nodup

/-- A list in the order of rankings is the ranking of the candidates that match. -/
theorem eq_ranked_of_pairwise (hmem : ∀ c, c ∈ ds ↔ c ∈ cs ∧ c.Matches mode typed)
    (hpairwise : ds.Pairwise (Precedes typed)) : ds = ranked mode typed cs :=
  hpairwise.eq_of_mem_iff (pairwise_ranked mode typed cs) fun c => (hmem c).trans mem_ranked.symm

theorem ranked_congr (h : ∀ c, c ∈ cs ↔ c ∈ ds) : ranked mode typed cs = ranked mode typed ds :=
  eq_ranked_of_pairwise (fun c => by rw [mem_ranked, h c]) (pairwise_ranked mode typed cs)

/-- The ranking is the one list that holds each candidate that matches once and no other, with the candidates
that start with what was typed before those that only contain it, and each of the two tiers strictly
ascending. So lists of the same candidates have the same ranking. The order compares lowercase texts,
then texts, then kinds; it is strict and total, and only equal candidates have the same key. -/
theorem ranked_unique (mode : MatchMode) (typed : Text) (cs : List Candidate) :
    (∀ ds, ds = ranked mode typed cs ↔
      ds.Nodup ∧ (∀ c, c ∈ ds ↔ c ∈ cs ∧ c.Matches mode typed) ∧ ds.Pairwise (Precedes typed)) ∧
    (∀ ds, (∀ c, c ∈ cs ↔ c ∈ ds) → ranked mode typed cs = ranked mode typed ds) ∧
    (∀ a b, order a b = .lt ↔ a.Before b) ∧ (∀ a b, order a b = .eq ↔ a = b) ∧
    (∀ a b, order a b = .gt ↔ b.Before a) ∧
    (∀ a b c : Candidate, a.Before b → b.Before c → a.Before c) ∧
    (∀ a b : Candidate, a.Before b ∨ a = b ∨ b.Before a) ∧ (∀ a b : Candidate, a.Before b → ¬b.Before a) ∧
    ∀ a b : Candidate, a.key = b.key → a = b := by
  refine ⟨fun ds => ⟨?_, fun ⟨_, hmem, hpairwise⟩ => eq_ranked_of_pairwise hmem hpairwise⟩,
    fun _ => ranked_congr, fun _ _ => order_eq_lt_iff, fun _ _ => order_eq_eq_iff, fun a b => ?_,
    fun _ _ _ => Before.trans, before_trichotomous, fun _ _ => Before.asymm, fun _ _ h => key_injective h⟩
  · rintro rfl
    exact ⟨nodup_ranked mode typed cs, fun _ => mem_ranked, pairwise_ranked mode typed cs⟩
  · rw [← order_eq_lt_iff]
    exact Std.OrientedCmp.gt_iff_lt

end Candidate
end CCompletion
