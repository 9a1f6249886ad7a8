import CCompletion.Proofs.Source.Region
import CCompletion.Proofs.Text.Search

/-!
# How the units of a text are read

Each unit is read in a region, alone or as the first of a pair, or else as the second of a pair. What the
automaton does with a part of the text does not depend on what stands behind that part, so the readings of a
text that is cut anywhere are those of the whole text.
-/

namespace CCompletion

/-- The region in which a unit is read, and whether the unit is the second of a pair. -/
structure Reading where
  region : Region
  second : Bool
deriving DecidableEq, Repr

namespace Region

variable {r s next : Region} {u v a b : CodeUnit} {t rest : Text} {i : Nat}

/-- The readings of the units of a text that starts in a region. -/
def readings : Region → Text → List Reading
  | _, [] => []
  | r, [_] => [⟨r, false⟩]
  | r, u :: v :: rest =>
    match r.pair? u v with
    | some (_, _, next) => ⟨r, false⟩ :: ⟨r, true⟩ :: readings next rest
    | none => ⟨r, false⟩ :: readings (r.single u).2 (v :: rest)

theorem readings_of_pair (h : r.pair? u v = some (a, b, next)) (rest : Text) :
    r.readings (u :: v :: rest) = ⟨r, false⟩ :: ⟨r, true⟩ :: next.readings rest := by
  rw [readings, h]

theorem readings_of_readsAlone (h : r.ReadsAlone u rest) :
    r.readings (u :: rest) = ⟨r, false⟩ :: (r.single u).2.readings rest := by
  cases rest with
  | nil => rfl
  | cons v rest => rw [readings, h v rfl]

theorem ReadsAlone.take (h : r.ReadsAlone u rest) (k : Nat) : r.ReadsAlone u (rest.take k) := by
  intro v hv
  cases k with
  | zero => cases hv
  | succ k =>
    cases rest with
    | nil => cases hv
    | cons w rest => exact h v hv

/-- Also when the cut falls between the two units of a pair. -/
theorem readings_take (r : Region) (t : Text) (k : Nat) :
    r.readings (t.take k) = (r.readings t).take k := by
  fun_induction readings r t generalizing k with
  | case1 => rw [List.take_nil, List.take_nil, readings]
  | case2 r u =>
    cases k with
    | zero => rfl
    | succ k => rw [List.take_succ_cons, List.take_succ_cons, List.take_nil, List.take_nil, readings]
  | case3 r u v rest a b next h ih =>
    cases k with
    | zero => rfl
    | succ k =>
      cases k with
      -- The first unit of the pair is left over, and is read alone in the same region.
      | zero => rfl
      | succ k =>
        rw [List.take_succ_cons, List.take_succ_cons, readings_of_pair h, ih, List.take_succ_cons,
          List.take_succ_cons]
  | case4 r u v rest h ih =>
    cases k with
    | zero => rfl
    | succ k =>
      have halone : r.ReadsAlone u (v :: rest) := fun w hw => Option.some.inj hw ▸ h
      rw [List.take_succ_cons, readings_of_readsAlone (halone.take k), ih, List.take_succ_cons]

/-- From a unit that is not the second of a pair, the automaton goes on as if the text started there. -/
theorem after_of_reading (h : (r.readings t)[i]? = some ⟨s, false⟩) : r.after t = s.after (t.drop i) := by
  fun_induction readings r t generalizing i with
  | case1 => cases h
  | case2 r u =>
    cases i with
    | zero =>
      cases h
      rfl
    | succ i => cases h
  | case3 r u v rest a b next hpair ih =>
    cases i with
    | zero =>
      cases h
      rfl
    | succ i =>
      cases i with
      -- The second unit of a pair is no place to start from.
      | zero => cases h
      | succ i => rw [after_of_pair hpair, ih h, List.drop_succ_cons, List.drop_succ_cons]
  | case4 r u v rest hnone ih =>
    cases i with
    | zero =>
      cases h
      rfl
    | succ i =>
      have halone : r.ReadsAlone u (v :: rest) := fun w hw => Option.some.inj hw ▸ hnone
      rw [after_of_readsAlone halone, ih h, List.drop_succ_cons]

/-- Up to a unit that is not the second of a pair, a text is masked as if it ended there. -/
theorem mask_of_reading (h : (r.readings t)[i]? = some ⟨s, false⟩) :
    r.mask t = r.mask (t.take i) ++ s.mask (t.drop i) := by
  fun_induction readings r t generalizing i with
  | case1 => cases h
  | case2 r u =>
    cases i with
    | zero =>
      cases h
      rfl
    | succ i => cases h
  | case3 r u v rest a b next hpair ih =>
    cases i with
    | zero =>
      cases h
      rfl
    | succ i =>
      cases i with
      | zero => cases h
      | succ i =>
        rw [mask_of_pair hpair, ih h, List.take_succ_cons, List.take_succ_cons, mask_of_pair hpair]
        rfl
  | case4 r u v rest hnone ih =>
    cases i with
    | zero =>
      cases h
      rfl
    | succ i =>
      have halone : r.ReadsAlone u (v :: rest) := fun w hw => Option.some.inj hw ▸ hnone
      rw [mask_of_readsAlone halone, ih h, List.take_succ_cons, mask_of_readsAlone (halone.take i)]
      rfl

/-- How a unit is read is settled by the text up to it. -/
theorem getElem?_readings_congr {t' : Text} (h : t.take (i + 1) = t'.take (i + 1)) :
    (r.readings t)[i]? = (r.readings t')[i]? := by
  have htake (t : Text) : (r.readings t)[i]? = (r.readings (t.take (i + 1)))[i]? := by
    rw [readings_take, List.getElem?_take_of_lt (Nat.lt_succ_self i)]
  rw [htake t, htake t', h]

/-! ## Open comments -/

theorem after_lineComment (h : newline ∉ t) : lineComment.after t = .lineComment := by
  induction t with
  | nil => rfl
  | cons u t ih =>
    have hu : u ≠ newline := fun hu => h (hu ▸ List.mem_cons_self)
    have hsingle : (lineComment.single u).2 = .lineComment := if_neg hu
    rw [after_of_readsAlone (readsAlone_of_pair?_eq_none (fun _ => rfl) t), hsingle]
    exact ih fun hmem => h (List.mem_cons_of_mem u hmem)

theorem after_blockComment (h : ∀ i, ¬Text.StandsAt "*/" t i) : blockComment.after t = .blockComment := by
  induction t with
  | nil => rfl
  | cons u t ih =>
    rw [after_of_readsAlone (readsAlone_blockComment (h 0))]
    exact ih fun i => h (i + 1)

/-- Comments are opened by pairs only. -/
theorem eq_of_single_eq_comment (hs : s = .lineComment ∨ s = .blockComment) (h : (r.single u).2 = s) :
    r = s := by
  have hcode : s ≠ .code := by rcases hs with rfl | rfl <;> decide
  have hliteral : ∀ q, s ≠ .literal q := by rcases hs with rfl | rfl <;> exact fun q hq => by cases hq
  cases r with
  | code =>
    rw [single] at h
    split at h
    · exact absurd h.symm (hliteral _)
    · split at h
      · exact absurd h.symm (hliteral _)
      · exact absurd h.symm hcode
  | lineComment =>
    rw [single] at h
    split at h
    · exact absurd h.symm hcode
    · exact h
  | blockComment => exact h
  | literal q =>
    rw [single] at h
    split at h
    · exact absurd h.symm hcode
    · exact absurd h.symm (hliteral q)

theorem ne_newline_of_single (h : (r.single u).2 = .lineComment) : u ≠ newline := by
  rintro rfl
  obtain rfl := eq_of_single_eq_comment (.inl rfl) h
  cases h

/-- At the end of a text, a line comment is open only when two slashes stand on the last line. -/
theorem exists_slashes_of_after (h : r.after t = .lineComment) :
    (r = .lineComment ∧ newline ∉ t) ∨ ∃ i, Text.StandsAt "//" t i ∧ newline ∉ t.drop i := by
  fun_induction after r t with
  | case1 r => exact .inl ⟨h, List.not_mem_nil⟩
  | case2 r u =>
    have hu : u ≠ newline := ne_newline_of_single h
    exact .inl ⟨eq_of_single_eq_comment (.inl rfl) h, fun hmem => hu (List.mem_singleton.mp hmem).symm⟩
  | case3 r u v rest a b next hpair ih =>
    rcases ih h with ⟨hnext, hrest⟩ | ⟨i, hstands, hrest⟩
    · -- The pair itself opens the comment in which the rest stands.
      obtain ⟨rfl, rfl, rfl, _, _, _⟩ | ⟨_, _, _, _, _, rfl⟩ | ⟨_, _, _, _, _, rfl⟩ |
        ⟨q, _, _, _, _, rfl⟩ := pair_cases hpair
      · refine .inr ⟨0, Text.standsAt_pair.mpr ⟨rfl, rfl⟩, fun hmem => ?_⟩
        rcases List.mem_cons.mp hmem with hslash | hmem
        · exact absurd hslash (by decide)
        · rcases List.mem_cons.mp hmem with hslash | hmem
          · exact absurd hslash (by decide)
          · exact hrest hmem
      · cases hnext
      · cases hnext
      · cases hnext
    · exact .inr ⟨i + 2, hstands, hrest⟩
  | case4 r u v rest hnone ih =>
    rcases ih h with ⟨hsingle, hrest⟩ | ⟨i, hstands, hrest⟩
    · have hu : u ≠ newline := ne_newline_of_single hsingle
      exact .inl ⟨eq_of_single_eq_comment (.inl rfl) hsingle,
        fun hmem => (List.mem_cons.mp hmem).elim (fun h => hu h.symm) hrest⟩
    · exact .inr ⟨i + 1, hstands, hrest⟩

/-- At the end of a text, a block comment is open only when nothing closes it behind some opening. -/
theorem exists_slashStar_of_after (h : r.after t = .blockComment) :
    (r = .blockComment ∧ ∀ j, ¬Text.StandsAt "*/" t j) ∨
      ∃ i, Text.StandsAt "/*" t i ∧ ∀ j ≥ i + 2, ¬Text.StandsAt "*/" t j := by
  fun_induction after r t with
  | case1 r => exact .inl ⟨h, fun j hj => by cases (Text.standsAt_pair.mp hj).1⟩
  | case2 r u =>
    refine .inl ⟨eq_of_single_eq_comment (.inr rfl) h, fun j hj => ?_⟩
    cases (Text.standsAt_pair.mp hj).2
  | case3 r u v rest a b next hpair ih =>
    have hshift : ∀ {i}, (∀ j ≥ i, ¬Text.StandsAt "*/" rest j) →
        ∀ j ≥ i + 2, ¬Text.StandsAt "*/" (u :: v :: rest) j := by
      intro i hrest j hj
      obtain ⟨k, rfl⟩ := Nat.exists_eq_add_of_le' (show 2 ≤ j by omega)
      exact hrest k (by omega)
    rcases ih h with ⟨hnext, hrest⟩ | ⟨i, hstands, hrest⟩
    · obtain ⟨_, _, _, _, _, rfl⟩ | ⟨rfl, rfl, rfl, _, _, _⟩ | ⟨_, _, _, _, _, rfl⟩ |
        ⟨q, _, _, _, _, rfl⟩ := pair_cases hpair
      · cases hnext
      · exact .inr ⟨0, Text.standsAt_pair.mpr ⟨rfl, rfl⟩, hshift fun j _ => hrest j⟩
      · cases hnext
      · cases hnext
    · exact .inr ⟨i + 2, hstands, hshift hrest⟩
  | case4 r u v rest hnone ih =>
    rcases ih h with ⟨hsingle, hrest⟩ | ⟨i, hstands, hrest⟩
    · obtain rfl := eq_of_single_eq_comment (.inr rfl) hsingle
      refine .inl ⟨rfl, fun j hj => ?_⟩
      cases j with
      -- A star and a slash at the start would have been read as a pair.
      | zero =>
        obtain ⟨hu, hv⟩ := Text.standsAt_pair.mp hj
        cases hu
        cases hv
        cases hnone
      | succ j => exact hrest j hj
    · refine .inr ⟨i + 1, hstands, fun j hj => ?_⟩
      obtain ⟨k, rfl⟩ := Nat.exists_eq_add_of_le' (show 1 ≤ j by omega)
      exact hrest k (by omega)

end Region

end CCompletion
