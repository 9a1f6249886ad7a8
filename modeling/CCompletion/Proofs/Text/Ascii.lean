import CCompletion.Proofs.Source.Word

/-!
# ASCII

No half of a surrogate pair is ASCII, so each unit of an ASCII text is a character of its own, whatever stands around
the text. Identifiers are ASCII.
-/

namespace CCompletion

namespace Text

variable {s t : Text} {u : CodeUnit}

def IsAscii (t : Text) : Prop := ∀ u ∈ t, u.toNat < 128

theorem IsAscii.of_cons {rest : Text} (h : IsAscii (u :: rest)) : u.toNat < 128 ∧ IsAscii rest :=
  List.forall_mem_cons.mp h

theorem isHighSurrogate_eq_false (h : u.toNat < 128) : isHighSurrogate u = false := by
  apply Bool.eq_false_iff.mpr
  simp only [isHighSurrogate, ne_eq, Bool.and_eq_true, decide_eq_true_eq, UInt16.le_iff_toNat_le, UInt16.reduceToNat]
  omega

theorem isLowSurrogate_eq_false (h : u.toNat < 128) : isLowSurrogate u = false := by
  apply Bool.eq_false_iff.mpr
  simp only [isLowSurrogate, ne_eq, Bool.and_eq_true, decide_eq_true_eq, UInt16.le_iff_toNat_le, UInt16.reduceToNat]
  omega

/-- Texts whose joint splits no surrogate pair are read one after the other. -/
theorem toCodePoints_append (h : ∀ u ∈ t.head?, isLowSurrogate u = false) (s : Text) :
    (s ++ t).toCodePoints = s.toCodePoints ++ t.toCodePoints := by
  fun_induction toCodePoints s with
  | case1 => rfl
  | case2 u =>
    cases t with
    | nil => rfl
    | cons v rest =>
      have hpair : ¬(isHighSurrogate u && isLowSurrogate v) = true := by rw [h v rfl, Bool.and_false]; decide
      show toCodePoints (u :: v :: rest) = u.toNat :: toCodePoints (v :: rest)
      rw [toCodePoints, if_neg hpair]
  | case3 u v rest hpair ih =>
    show toCodePoints (u :: v :: (rest ++ t)) = _
    rw [toCodePoints, if_pos hpair, ih]
    rfl
  | case4 u v rest hpair ih =>
    show toCodePoints (u :: v :: (rest ++ t)) = _
    rw [toCodePoints, if_neg hpair]
    exact congrArg (u.toNat :: ·) ih

theorem toCodePoints_append_of_isAscii (h : s.IsAscii) (t : Text) :
    (s ++ t).toCodePoints = s.map (·.toNat) ++ t.toCodePoints := by
  induction s with
  | nil => rfl
  | cons u s ih =>
    obtain ⟨hu, hs⟩ := h.of_cons
    have hcons : toCodePoints (u :: (s ++ t)) = u.toNat :: toCodePoints (s ++ t) := by
      cases s ++ t with
      | nil => rfl
      | cons v rest =>
        have hpair : ¬(isHighSurrogate u && isLowSurrogate v) = true := by
          rw [isHighSurrogate_eq_false hu, Bool.false_and]
          decide
        rw [toCodePoints, if_neg hpair]
    rw [List.cons_append, hcons, ih hs]
    rfl

theorem toCodePoints_of_isAscii (h : t.IsAscii) : t.toCodePoints = t.map (·.toNat) := by
  have hread := toCodePoints_append_of_isAscii h []
  rwa [List.append_nil, toCodePoints, List.append_nil] at hread

end Text

variable {t : Text} {u : CodeUnit}

theorem lt_of_isIdentifierUnit (h : isIdentifierUnit u = true) : u.toNat < 128 := by
  have hunderscore : unit '_' = 95 := rfl
  simp only [isIdentifierUnit, isIdentifierStart, isDigit, hunderscore, Bool.or_eq_true, Bool.and_eq_true,
    decide_eq_true_eq, beq_iff_eq, UInt16.le_iff_toNat_le, ← UInt16.toNat_inj, UInt16.reduceToNat] at h
  omega

theorem Text.IsRun.isAscii (h : t.IsRun) : t.IsAscii := fun u hu => lt_of_isIdentifierUnit (h u hu)

end CCompletion
