import CCompletion.Proofs.Source.Context
import CCompletion.Proofs.Source.Word
import CCompletion.Proofs.Text.Leading

/-!
# Words of the code

A word stands alone where no identifier unit stands next to it. Masking leaves identifier units only in code, and next
to them it leaves everything as it is, so the words of a masked text are whole words of the text.
-/

namespace CCompletion

variable {r : Region} {t a w w' before rest name named : Text} {u v b c : CodeUnit} {next : Region} {i p : Nat}

/-! ## Words at an offset -/

namespace Text

/-- `w` stands at an offset, and no identifier unit stands next to it. -/
structure IsWordAt (t : Text) (i : Nat) (w : Text) : Prop where
  stands : StandsAt w t i
  before : EndsOutsideWord (t.take i)
  behind : startsInWord (t.drop (i + w.length)) = false

theorem standsAt_iff_getElem? : StandsAt w t i ↔ ∀ j (hj : j < w.length), t[i + j]? = some w[j] := by
  rw [StandsAt, List.prefix_iff_getElem?]
  simp only [List.getElem?_drop]

theorem startsInWord_drop_eq_false_iff :
    startsInWord (t.drop i) = false ↔ ∀ u ∈ t[i]?, isIdentifierUnit u = false := by
  rw [startsInWord_eq_false_iff, List.head?_drop]

theorem isWordAt_append (hbefore : before.EndsOutsideWord) (hrest : startsInWord rest = false) :
    IsWordAt (before ++ (w ++ rest)) before.length w := by
  refine ⟨?_, ?_, ?_⟩
  · rw [StandsAt, List.drop_left]
    exact List.prefix_append w rest
  · rwa [List.take_left]
  · rwa [← List.drop_drop, List.drop_left, List.drop_left]

/-- What follows an offset leads to an identifier, which therefore is a word of its own. -/
theorem LeadsTo.isWordAt (h : LeadsTo (t.drop p) named) (hname : identifier? named = some (name, rest)) :
    t.IsWordAt (p + ((t.drop p).length - named.length)) name := by
  have hlt := h.length_lt
  obtain ⟨read, hne, hends, hread⟩ := h
  obtain ⟨rfl, _, hrest⟩ := identifier?_eq_some_iff.mp hname
  have hsplit : t = (t.take p ++ read) ++ (name ++ rest) := by
    rw [List.append_assoc, ← hread, List.take_append_drop]
  have hposition : p + ((t.drop p).length - (name ++ rest).length) = (t.take p ++ read).length := by
    rw [List.length_drop] at hlt
    rw [hread, List.length_append, Nat.add_sub_cancel, List.length_append, List.length_take,
      Nat.min_eq_left (by omega)]
  have hword := isWordAt_append (w := name) (endsOutsideWord_append hends hne (t.take p)) hrest
  rwa [← hposition, ← hsplit] at hword

theorem IsWordAt.le_length (h : t.IsWordAt i w) (hne : w ≠ []) : i + w.length ≤ t.length := by
  have hlt := lt_length_of_standsAt h.stands hne
  have hle : w.length ≤ (t.drop i).length := h.stands.length_le
  rw [List.length_drop] at hle
  omega

theorem IsWordAt.eq_takeWhile (h : t.IsWordAt i w) (hrun : w.IsRun) :
    w = (t.drop i).takeWhile isIdentifierUnit := by
  rw [← append_drop_of_standsAt h.stands, takeWhile_of_isRun hrun h.behind]

/-- Only one word stands at an offset. -/
theorem IsWordAt.unique (h : t.IsWordAt i w) (h' : t.IsWordAt i w') (hrun : w.IsRun) (hrun' : w'.IsRun) :
    w = w' := by
  rw [h.eq_takeWhile hrun, ← h'.eq_takeWhile hrun']

end Text

/-- `w` stands at an offset of a text as a whole word of its code: masking leaves all of it. -/
structure IsCodeWord (t : Text) (i : Nat) (w : Text) : Prop where
  word : t.IsWordAt i w
  unmasked : Text.StandsAt w (maskNonCode t) i

/-! ## Masking around words -/

namespace Region

theorem isIdentifierUnit_blanked (u : CodeUnit) : isIdentifierUnit (blanked u) = false := by
  rw [blanked]
  split
  · decide
  · decide

/-- A unit that is read alone is left an identifier unit only in code. -/
theorem eq_code_of_single (h : isIdentifierUnit (r.single u).1 = true) : r = .code := by
  cases r with
  | code => rfl
  | lineComment => rw [single, isIdentifierUnit_blanked] at h; cases h
  | blockComment => rw [single, isIdentifierUnit_blanked] at h; cases h
  | literal q =>
    rw [single] at h
    split at h
    · rename_i hends
      obtain rfl | rfl := hends
      · cases q <;> cases h
      · cases h
    · cases h

theorem isIdentifierUnit_pair (h : r.pair? u v = some (b, c, next)) :
    isIdentifierUnit b = false ∧ isIdentifierUnit c = false := by
  obtain ⟨_, rfl, rfl, rfl, rfl, _⟩ | ⟨_, rfl, rfl, rfl, rfl, _⟩ | ⟨_, rfl, rfl, rfl, rfl, _⟩ |
    ⟨q, _, rfl, rfl, rfl, _⟩ := pair_cases h
  · decide
  · decide
  · decide
  · exact ⟨by decide, isIdentifierUnit_blanked v⟩

/-- An identifier unit that masking leaves is read in code, alone. -/
theorem reading_of_mask (h : (r.mask t)[i]? = some u) (hu : isIdentifierUnit u = true) :
    (r.readings t)[i]? = some ⟨.code, false⟩ ∧ t[i]? = some u := by
  fun_induction mask r t generalizing i with
  | case1 => cases h
  | case2 r v =>
    cases i with
    | zero =>
      obtain rfl := Option.some.inj h
      obtain rfl := eq_code_of_single hu
      exact ⟨rfl, rfl⟩
    | succ i => cases h
  | case3 r v v' rest b c next hpair ih =>
    obtain ⟨hb, hc⟩ := isIdentifierUnit_pair hpair
    rw [readings_of_pair hpair]
    cases i with
    | zero =>
      obtain rfl := Option.some.inj h
      rw [hb] at hu
      cases hu
    | succ i =>
      cases i with
      | zero =>
        obtain rfl := Option.some.inj h
        rw [hc] at hu
        cases hu
      | succ i => exact ih h
  | case4 r v v' rest hnone ih =>
    have halone : r.ReadsAlone v (v' :: rest) := fun w hw => Option.some.inj hw ▸ hnone
    rw [readings_of_readsAlone halone]
    cases i with
    | zero =>
      obtain rfl := Option.some.inj h
      obtain rfl := eq_code_of_single hu
      exact ⟨rfl, rfl⟩
    | succ i => exact ih h

theorem endsOutsideWord_mask (r : Region) (h : t.EndsOutsideWord) : (r.mask t).EndsOutsideWord := by
  intro u hu
  rw [← Bool.not_eq_true]
  intro hunit
  rw [List.getLast?_eq_getElem?, length_mask] at hu
  have hlast := (reading_of_mask hu hunit).2
  rw [← List.getLast?_eq_getElem?] at hlast
  rw [h u hlast] at hunit
  cases hunit

theorem single_eq_of_code (h : (r.single u).2 = .code) : (r.single u).1 = u := by
  cases r with
  | code => rfl
  | lineComment =>
    rw [single] at h ⊢
    split at h
    · rename_i hu
      rw [hu]
      rfl
    · cases h
  | blockComment => cases h
  | literal q =>
    rw [single] at h ⊢
    split at h
    · rename_i hends
      rw [if_pos hends]
    · cases h

/-- What stands before a unit that is read in code is left as it is: it is code itself, or closes what
is none. -/
theorem getElem?_mask_before (h : (r.readings t)[i + 1]? = some ⟨.code, false⟩) :
    (r.mask t)[i]? = t[i]? := by
  fun_induction mask r t generalizing i with
  | case1 => cases h
  | case2 r v => cases h
  | case3 r v v' rest b c next hpair ih =>
    rw [readings_of_pair hpair] at h
    cases i with
    -- The second of a pair is not read alone.
    | zero => cases h
    | succ i =>
      cases i with
      | zero =>
        -- The pair leads to code, so it closes a block comment.
        have hnext : next = .code := by
          cases rest with
          | nil => cases h
          | cons w rest =>
            have hfirst := getElem?_readings_zero next w rest
            exact congrArg Reading.region (Option.some.inj (hfirst.symm.trans h))
        obtain ⟨_, _, _, _, _, rfl⟩ | ⟨_, _, _, _, _, rfl⟩ | ⟨_, _, _, _, rfl, _⟩ |
          ⟨q, _, _, _, _, rfl⟩ := pair_cases hpair
        · cases hnext
        · cases hnext
        · rfl
        · cases hnext
      | succ i => exact ih h
  | case4 r v v' rest hnone ih =>
    have halone : r.ReadsAlone v (v' :: rest) := fun w hw => Option.some.inj hw ▸ hnone
    rw [readings_of_readsAlone halone] at h
    cases i with
    | zero =>
      have hfirst := getElem?_readings_zero (r.single v).2 v' rest
      have hcode : (r.single v).2 = .code := congrArg Reading.region (Option.some.inj (hfirst.symm.trans h))
      exact congrArg some (single_eq_of_code hcode)
    | succ i => exact ih h

theorem head?_mask_code (t : Text) : (code.mask t).head? = t.head? := by
  cases t with
  | nil => rfl
  | cons u rest =>
    cases rest with
    | nil => rfl
    | cons v rest =>
      cases hpair : code.pair? u v with
      | none => rw [mask, hpair]; rfl
      | some x =>
        obtain ⟨b, c, next⟩ := x
        rw [mask_of_pair hpair]
        obtain ⟨_, _, _, rfl, _⟩ | ⟨_, _, _, rfl, _⟩ | ⟨hcode, _⟩ | ⟨q, hcode, _⟩ := pair_cases hpair
        · rfl
        · rfl
        · cases hcode
        · cases hcode

/-- A unit that opens neither a comment nor a literal. -/
def OpensNothing (u : CodeUnit) : Prop := u ≠ unit '/' ∧ u ≠ Quote.double.unit ∧ u ≠ Quote.single.unit

instance (u : CodeUnit) : Decidable (OpensNothing u) := inferInstanceAs (Decidable (_ ∧ _))

/-- Units that open nothing are masked one by one: they stay, and what follows is code. -/
theorem mask_code_append (h : ∀ u ∈ w, OpensNothing u) (t : Text) :
    code.mask (w ++ t) = w ++ code.mask t := by
  induction w with
  | nil => rfl
  | cons u w ih =>
    obtain ⟨hslash, hdouble, hsingle⟩ := h u List.mem_cons_self
    have halone : code.ReadsAlone u (w ++ t) := by
      intro v _
      rw [pair?, if_neg fun h => hslash h.1, if_neg fun h => hslash h.1]
    have hcode : code.single u = (u, .code) := by rw [single, if_neg hdouble, if_neg hsingle]
    rw [List.cons_append, mask_of_readsAlone halone, hcode, ih fun v hv => h v (List.mem_cons_of_mem u hv),
      List.cons_append]

theorem opensNothing_of_isIdentifierUnit (hu : isIdentifierUnit u = true) : OpensNothing u := by
  refine ⟨?_, ?_, ?_⟩ <;> rintro rfl <;> cases hu

theorem opensNothing_of_isBlankOrStar (hu : isBlankOrStar u = true) : OpensNothing u := by
  refine ⟨?_, ?_, ?_⟩ <;> rintro rfl <;> cases hu

/-- What stands behind an identifier unit of the code is left as it is. -/
theorem getElem?_mask_behind (h : (r.mask t)[i]? = some u) (hu : isIdentifierUnit u = true) :
    (r.mask t)[i + 1]? = t[i + 1]? := by
  obtain ⟨hread, ht⟩ := reading_of_mask h hu
  have hi : i < t.length := (List.getElem?_eq_some_iff.mp ht).1
  have hrest : t.drop i = [u] ++ t.drop (i + 1) := by
    rw [List.drop_eq_getElem_cons hi, (List.getElem?_eq_some_iff.mp ht).2]
    rfl
  have hplain : ∀ v ∈ [u], OpensNothing v := by
    intro v hv
    rw [List.mem_singleton.mp hv]
    exact opensNothing_of_isIdentifierUnit hu
  have hlength : (r.mask (t.take i)).length = i := by
    rw [length_mask, List.length_take, Nat.min_eq_left (Nat.le_of_lt hi)]
  rw [mask_of_reading hread, hrest, mask_code_append hplain, List.getElem?_append_right (by omega), hlength,
    Nat.add_sub_cancel_left, List.getElem?_append_right (Nat.le_refl 1), List.length_singleton, Nat.sub_self,
    ← List.head?_eq_getElem?, head?_mask_code, List.head?_drop]

/-- A text whose end is code is masked on its own, unless a comment opens or closes over the cut. -/
theorem mask_append (h : r.after a = .code) (ht : t.head? ≠ some (unit '/') ∧ t.head? ≠ some (unit '*')) :
    r.mask (a ++ t) = r.mask a ++ code.mask t := by
  fun_induction after r a with
  | case1 r => rw [h]; rfl
  | case2 r u =>
    have halone : r.ReadsAlone u t := by
      intro v hv
      cases hpair : r.pair? u v with
      | none => rfl
      | some x =>
        obtain ⟨b, c, next⟩ := x
        obtain ⟨_, _, rfl, _⟩ | ⟨_, _, rfl, _⟩ | ⟨_, _, rfl, _⟩ | ⟨q, rfl, rfl, _⟩ := pair_cases hpair
        · exact absurd hv ht.1
        · exact absurd hv ht.2
        · exact absurd hv ht.1
        · cases q <;> cases h
    rw [List.singleton_append, mask_of_readsAlone halone, h]
    rfl
  | case3 r u v rest b c next hpair ih =>
    rw [List.cons_append, List.cons_append, mask_of_pair hpair, mask_of_pair hpair, ih h]
    rfl
  | case4 r u v rest hnone ih =>
    have halone {rest : Text} : r.ReadsAlone u (v :: rest) := fun w hw => Option.some.inj hw ▸ hnone
    rw [List.cons_append, List.cons_append, mask_of_readsAlone halone, mask_of_readsAlone halone,
      ← List.cons_append, ih h]
    rfl

end Region

/-- Behind code, a stretch that starts with a word and opens nothing stays, and what follows it is code. -/
theorem maskNonCode_append (hcode : Region.code.after before = .code) (hstarts : Text.startsInWord w = true)
    (hw : ∀ u ∈ w, Region.OpensNothing u) (rest : Text) :
    maskNonCode (before ++ (w ++ rest)) = maskNonCode before ++ (w ++ Region.code.mask rest) := by
  -- As the stretch starts with an identifier unit, no comment begins or ends over the cut.
  have hhead : ∀ u ∈ (w ++ rest).head?, isIdentifierUnit u = true := by
    intro u hu
    cases w with
    | nil => cases hstarts
    | cons v w => exact Option.some.inj hu ▸ hstarts
  rw [maskNonCode, Region.mask_append hcode, Region.mask_code_append hw, maskNonCode]
  refine ⟨fun hslash => ?_, fun hstar => ?_⟩
  · cases hhead _ hslash
  · cases hhead _ hstar

/-! ## Words of a masked text -/

theorem getLast?_take_succ {t : Text} {i : Nat} (hi : i < t.length) : (t.take (i + 1)).getLast? = t[i]? := by
  rw [List.getLast?_take, if_neg (Nat.succ_ne_zero i), Nat.succ_sub_one, List.getElem?_eq_getElem hi,
    Option.some_or]

/-- The words of a masked text are whole words of the text. -/
theorem isCodeWord_of_mask (h : (maskNonCode t).IsWordAt i w) (hrun : w.IsRun) (hne : w ≠ []) :
    IsCodeWord t i w := by
  have hpos : 0 < w.length := List.length_pos_iff.mpr hne
  have hlength := length_maskNonCode t
  have hunits := Text.standsAt_iff_getElem?.mp h.stands
  have hread (j : Nat) (hj : j < w.length) :
      (Region.code.readings t)[i + j]? = some ⟨.code, false⟩ ∧ t[i + j]? = some w[j] :=
    Region.reading_of_mask (hunits j hj) (hrun _ (List.getElem_mem hj))
  refine ⟨⟨Text.standsAt_iff_getElem?.mpr fun j hj => (hread j hj).2, ?_, ?_⟩, h.stands⟩
  · cases i with
    | zero => rw [List.take_zero]; exact nofun
    | succ i =>
      have hi : i < t.length := by
        have hfirst := (List.getElem?_eq_some_iff.mp (hread 0 hpos).2).1
        omega
      have hbefore := h.before
      rw [Text.EndsOutsideWord, getLast?_take_succ (hlength ▸ hi), maskNonCode,
        Region.getElem?_mask_before (hread 0 hpos).1] at hbefore
      rwa [Text.EndsOutsideWord, getLast?_take_succ hi]
  · -- The unit behind the last one of the word.
    have hlast := hunits (w.length - 1) (by omega)
    have hbehind := Region.getElem?_mask_behind hlast (hrun _ (List.getElem_mem _))
    have hplace : i + (w.length - 1) + 1 = i + w.length := by omega
    rw [hplace] at hbehind
    rw [Text.startsInWord_drop_eq_false_iff, ← hbehind]
    exact Text.startsInWord_drop_eq_false_iff.mp h.behind

end CCompletion
