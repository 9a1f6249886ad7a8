import CCompletion.Proofs.Source.Context

/-!
# Masking a text that is cut

How a unit is masked is settled by the units before it and by the one behind it, where the two may be a pair. A cut
between the units of a pair leaves the first of them to be read alone. This shows in one place: a star that closes a
block comment together with the slash behind it is blanked where that slash is cut off.
-/

namespace CCompletion

variable {t : Text} {u v a b : CodeUnit} {i k : Nat}

namespace Region

variable {r next : Region}

/-- The first unit of a pair is masked as it is alone, unless the pair closes a block comment. -/
theorem single_of_pair (h : r.pair? u v = some (a, b, next)) (hr : r ≠ .blockComment) : (r.single u).1 = a := by
  obtain ⟨rfl, _, _, rfl, _⟩ | ⟨rfl, _, _, rfl, _⟩ | ⟨hcomment, _⟩ | ⟨q, rfl, rfl, rfl, _⟩ := pair_cases h
  · rfl
  · rfl
  · exact absurd hcomment hr
  · cases q <;> rfl

theorem eq_of_pair_blockComment (h : blockComment.pair? u v = some (a, b, next)) :
    u = unit '*' ∧ v = unit '/' := by
  obtain ⟨hcode, _⟩ | ⟨hcode, _⟩ | ⟨_, hstar, hslash, _⟩ | ⟨q, hliteral, _⟩ := pair_cases h
  · cases hcode
  · cases hcode
  · exact ⟨hstar, hslash⟩
  · cases hliteral

/-- No unit is the second of a pair at the start of a text. -/
theorem getElem?_readings_zero_ne_second (r s : Region) (t : Text) : (r.readings t)[0]? ≠ some ⟨s, true⟩ := by
  cases t with
  | nil => exact nofun
  | cons u t =>
    rw [getElem?_readings_zero]
    exact nofun

/-- A text that is cut anywhere else is masked as far as the whole text is. -/
theorem mask_take (h : (r.readings t)[k]? ≠ some ⟨.blockComment, true⟩) : r.mask (t.take k) = (r.mask t).take k := by
  fun_induction mask r t generalizing k with
  | case1 => rw [List.take_nil, mask]
  | case2 r u =>
    cases k with
    | zero => rfl
    | succ k => rw [List.take_succ_cons, List.take_nil, mask, List.take_succ_cons, List.take_nil]
  | case3 r u v rest a b next hpair ih =>
    rw [readings_of_pair hpair] at h
    cases k with
    | zero => rfl
    | succ k =>
      cases k with
      | zero =>
        -- The cut falls into the pair, which is none that closes a comment.
        have hr : r ≠ .blockComment := by
          rintro rfl
          exact h rfl
        show [(r.single u).1] = [a]
        rw [single_of_pair hpair hr]
      | succ k =>
        rw [List.take_succ_cons, List.take_succ_cons, mask_of_pair hpair, ih h, List.take_succ_cons,
          List.take_succ_cons]
  | case4 r u v rest hnone ih =>
    have halone : r.ReadsAlone u (v :: rest) := fun w hw => Option.some.inj hw ▸ hnone
    rw [readings_of_readsAlone halone] at h
    cases k with
    | zero => rfl
    | succ k => rw [List.take_succ_cons, mask_of_readsAlone (halone.take k), ih h, List.take_succ_cons]

/-- Cut off from the slash that closes the comment with it, the star is blanked. -/
theorem mask_take_closing (h : (r.readings t)[i + 1]? = some ⟨.blockComment, true⟩) :
    r.mask (t.take (i + 1)) = (r.mask t).take i ++ [unit ' '] ∧ (r.mask t)[i]? = some (unit '*') := by
  fun_induction mask r t generalizing i with
  | case1 => cases h
  | case2 r u => cases h
  | case3 r u v rest a b next hpair ih =>
    rw [readings_of_pair hpair] at h
    cases i with
    | zero =>
      obtain rfl : r = .blockComment := congrArg Reading.region (Option.some.inj h)
      obtain ⟨rfl, rfl⟩ := eq_of_pair_blockComment hpair
      cases hpair
      exact ⟨rfl, rfl⟩
    | succ i =>
      cases i with
      | zero => exact absurd h (getElem?_readings_zero_ne_second next _ rest)
      | succ i =>
        obtain ⟨hmask, hstar⟩ := ih h
        rw [List.take_succ_cons, List.take_succ_cons, mask_of_pair hpair, hmask]
        exact ⟨rfl, hstar⟩
  | case4 r u v rest hnone ih =>
    have halone : r.ReadsAlone u (v :: rest) := fun w hw => Option.some.inj hw ▸ hnone
    rw [readings_of_readsAlone halone] at h
    cases i with
    | zero => exact absurd h (getElem?_readings_zero_ne_second _ _ (v :: rest))
    | succ i =>
      obtain ⟨hmask, hstar⟩ := ih h
      rw [List.take_succ_cons, mask_of_readsAlone (halone.take (i + 1)), hmask]
      exact ⟨rfl, hstar⟩

/-- The second unit of a pair closes nothing with the unit behind it. -/
theorem not_closes_behind_pair (hpair : r.pair? u v = some (a, b, next)) :
    ¬((r.single u).2 = .blockComment ∧ v = unit '*') := by
  rintro ⟨hafter, hv⟩
  obtain ⟨_, _, rfl, _⟩ | ⟨rfl, rfl, _⟩ | ⟨_, _, rfl, _⟩ | ⟨q, rfl, rfl, _⟩ := pair_cases hpair
  · cases hv
  · cases hafter
  · cases hv
  · cases q <;> cases hafter

/-- A unit closes a block comment together with the one before it where the comment is open before the two. -/
theorem closes_iff : (r.readings t)[i + 1]? = some ⟨.blockComment, true⟩ ↔
    r.after (t.take i) = .blockComment ∧ Text.StandsAt "*/" t i := by
  show _ ↔ _ ∧ Text.StandsAt [unit '*', unit '/'] t i
  rw [Text.standsAt_pair]
  -- Along the automaton; the part before the two may end within a pair as well.
  fun_induction readings r t generalizing i with
  | case1 =>
    refine iff_of_false (by simp) ?_
    rintro ⟨_, hu, _⟩
    cases hu
  | case2 r u =>
    refine iff_of_false (by simp) ?_
    rintro ⟨_, _, hv⟩
    cases hv
  | case3 r u v rest a b next hpair ih =>
    cases i with
    | zero =>
      constructor
      · intro h
        obtain rfl : r = .blockComment := congrArg Reading.region (Option.some.inj h)
        obtain ⟨rfl, rfl⟩ := eq_of_pair_blockComment hpair
        exact ⟨rfl, rfl, rfl⟩
      · rintro ⟨hr, _⟩
        obtain rfl : r = .blockComment := hr
        rfl
    | succ i =>
      cases i with
      | zero =>
        refine iff_of_false (getElem?_readings_zero_ne_second next _ rest) fun h => ?_
        exact not_closes_behind_pair hpair ⟨h.1, Option.some.inj h.2.1⟩
      | succ i =>
        have hrest := ih (i := i)
        rw [List.take_succ_cons, List.take_succ_cons, after_of_pair hpair]
        exact hrest
  | case4 r u v rest hnone ih =>
    have halone : r.ReadsAlone u (v :: rest) := fun w hw => Option.some.inj hw ▸ hnone
    cases i with
    | zero =>
      refine iff_of_false (getElem?_readings_zero_ne_second _ _ (v :: rest)) ?_
      rintro ⟨hr, hu, hv⟩
      -- Such a pair would not be read one by one.
      obtain rfl : r = .blockComment := hr
      obtain rfl := Option.some.inj hu
      obtain rfl := Option.some.inj hv
      cases hnone
    | succ i =>
      have hrest := ih (i := i)
      rw [List.take_succ_cons, after_of_readsAlone (halone.take i)]
      exact hrest

end Region

/-- The cut at `k` falls between the star and the slash that close a block comment. -/
def CutsClosing (t : Text) (k : Nat) : Prop :=
  ∃ i, k = i + 1 ∧ Region.code.after (t.take i) = .blockComment ∧ Text.StandsAt "*/" t i

theorem cutsClosing_iff : CutsClosing t k ↔ (Region.code.readings t)[k]? = some ⟨.blockComment, true⟩ := by
  cases k with
  | zero => exact iff_of_false (fun ⟨i, hi, _⟩ => nomatch hi) (Region.getElem?_readings_zero_ne_second _ _ t)
  | succ k =>
    rw [Region.closes_iff]
    constructor
    · rintro ⟨i, hi, hcloses⟩
      obtain rfl : k = i := Nat.succ.inj hi
      exact hcloses
    · exact fun hcloses => ⟨k, rfl, hcloses⟩

/-- Masking the part of a text before a cut gives the part of the masked text before it. -/
theorem maskNonCode_take (h : ¬CutsClosing t k) : maskNonCode (t.take k) = (maskNonCode t).take k :=
  Region.mask_take (mt cutsClosing_iff.mpr h)

theorem exists_maskNonCode_take (h : CutsClosing t k) : ∃ masked,
    maskNonCode (t.take k) = masked ++ [unit ' '] ∧ (maskNonCode t).take k = masked ++ [unit '*'] := by
  obtain ⟨i, rfl, hcloses⟩ := h
  obtain ⟨hmask, hstar⟩ := Region.mask_take_closing (Region.closes_iff.mpr hcloses)
  refine ⟨(maskNonCode t).take i, hmask, ?_⟩
  obtain ⟨hi, hget⟩ := List.getElem?_eq_some_iff.mp hstar
  rw [← hget]
  exact List.take_succ_eq_append_getElem hi

end CCompletion
