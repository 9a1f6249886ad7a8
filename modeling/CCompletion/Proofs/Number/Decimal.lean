import CCompletion.Number.Printer
import CCompletion.Number.Reader
import Mathlib.Data.List.TakeWhile

/-!
# Naturals in decimal

The digits that a natural number is printed with read back as this number, up to the limit to which integers are
held exactly.
-/

namespace CCompletion.Number

variable {n base acc : Nat} {u : CodeUnit} {c : Char} {cs : List Char}

/-! ## Digits -/

theorem bounds_of_isDigit (h : c.isDigit = true) : 48 ≤ c.toNat ∧ c.toNat ≤ 57 := by
  simpa [Char.isDigit, UInt32.le_iff_toNat_le] using h

theorem toNat_unit_of_isDigit (h : c.isDigit = true) : (unit c).toNat = c.toNat := by
  have hbounds := bounds_of_isDigit h
  show c.val.toNat % 2 ^ 16 = c.val.toNat
  exact Nat.mod_eq_of_lt (by show c.toNat < 2 ^ 16; omega)

theorem isDigit_unit (h : c.isDigit = true) : isDigit (unit c) = true := by
  have hbounds := bounds_of_isDigit h
  rw [isDigit, Bool.and_eq_true, decide_eq_true_eq, decide_eq_true_eq, UInt16.le_iff_toNat_le,
    UInt16.le_iff_toNat_le, toNat_unit_of_isDigit h]
  exact hbounds

theorem digitValue?_unit (h : c.isDigit = true) : digitValue? 10 (unit c) = some (c.toNat - '0'.toNat) := by
  have hbounds := bounds_of_isDigit h
  have hzero : '0'.toNat = 48 := rfl
  rw [digitValue?, if_pos (isDigit_unit h), toNat_unit_of_isDigit h, hzero]
  exact Option.filter_some_pos (decide_eq_true (by omega))

theorem ofCodePoint_toNat (h : c.isDigit = true) : Text.ofCodePoint c.toNat = [unit c] := by
  have hbounds := bounds_of_isDigit h
  rw [Text.ofCodePoint, if_pos (by omega)]
  rfl

theorem ofChars_eq (h : ∀ c ∈ cs, c.isDigit = true) : Text.ofChars cs = cs.map unit := by
  induction cs with
  | nil => rfl
  | cons c cs ih =>
    rw [List.forall_mem_cons] at h
    have hcs := ih h.2
    rw [Text.ofChars] at hcs ⊢
    rw [List.flatMap_cons, ofCodePoint_toNat h.1, hcs, List.map_cons, List.singleton_append]

theorem isDigit_of_mem_toDigits (h : c ∈ Nat.toDigits 10 n) : c.isDigit = true :=
  Nat.isDigit_of_mem_toDigits (by omega) (by omega) h

theorem digits_eq (n : Nat) : digits n = (Nat.toDigits 10 n).map unit :=
  ofChars_eq fun _ => isDigit_of_mem_toDigits

theorem isDigit_of_mem_digits (h : u ∈ digits n) : isDigit u = true := by
  rw [digits_eq] at h
  obtain ⟨c, hc, rfl⟩ := List.mem_map.mp h
  exact isDigit_unit (isDigit_of_mem_toDigits hc)

theorem digits_ne_nil (n : Nat) : digits n ≠ [] := by
  rw [digits_eq, ne_eq, List.map_eq_nil_iff]
  exact List.length_pos_iff.mp Nat.length_toDigits_pos

theorem notMem_digits (hu : isDigit u = false) : u ∉ digits n := by
  intro h
  rw [isDigit_of_mem_digits h] at hu
  cases hu

/-! ## Reading digits -/

theorem natFrom?_map_unit (h : ∀ c ∈ cs, c.isDigit = true) :
    natFrom? 10 acc (cs.map unit) = some (Nat.ofDigitChars 10 cs acc) := by
  induction cs generalizing acc with
  | nil => rfl
  | cons c cs ih =>
    rw [List.forall_mem_cons] at h
    rw [List.map_cons, natFrom?, digitValue?_unit h.1, Option.bind_some, ih h.2, Nat.ofDigitChars_cons,
      Nat.mul_comm]

theorem nat?_digits (n : Nat) : nat? 10 (digits n) = some n := by
  have hread : natFrom? 10 0 (digits n) = some n := by
    rw [digits_eq, natFrom?_map_unit fun _ => isDigit_of_mem_toDigits, Nat.ofDigitChars_ten_toDigits]
  obtain ⟨u, rest, hcons⟩ := List.exists_cons_of_ne_nil (digits_ne_nil n)
  rw [hcons] at hread ⊢
  exact hread

theorem isBlank_of_isDigit (h : isDigit u = true) : isBlank u = false := by
  refine isBlank_of_isIdentifierUnit ?_
  rw [isIdentifierUnit, h, Bool.or_true]

theorem trim_digits (n : Nat) : (digits n).trim = digits n := by
  have hkeep {t : Text} (h : ∀ u ∈ t, isDigit u = true) : t.dropWhile isBlank = t := by
    cases t with
    | nil => rfl
    | cons u t =>
      have hu := isBlank_of_isDigit (h u List.mem_cons_self)
      exact List.dropWhile_cons_of_neg (by rw [hu]; decide)
  have hdigits : ∀ u ∈ digits n, isDigit u = true := fun _ => isDigit_of_mem_digits
  rw [Text.trim, Text.trimStart, hkeep hdigits, Text.trimEnd,
    hkeep fun u hu => hdigits u (List.mem_reverse.mp hu), List.reverse_reverse]

theorem decimal?_digits (negative : Bool) (n : Nat) : decimal? negative (digits n) = some (ofDecimal negative n 0) := by
  have hwhole : (digits n).takeWhile isDigit = digits n :=
    List.takeWhile_eq_self_iff.mpr fun _ => isDigit_of_mem_digits
  have hrest : (digits n).dropWhile isDigit = [] :=
    List.dropWhile_eq_nil_iff.mpr fun _ => isDigit_of_mem_digits
  rw [decimal?, hwhole, hrest]
  simp only [List.append_nil, nat?_digits, exponent?]
  rfl

/-- Digits open neither another base nor a sign. -/
theorem trimmed?_digits (n : Nat) : trimmed? (digits n) = decimal? false (digits n) := by
  have hne {u v : CodeUnit} (hu : u ∈ digits n) (hv : isDigit v = false) : u ≠ v := by
    rintro rfl
    exact notMem_digits hv hu
  cases hdigits : digits n with
  | nil => exact absurd hdigits (digits_ne_nil n)
  | cons u rest =>
    cases rest with
    | nil => rfl
    | cons v rest =>
      have hu : u ∈ digits n := by rw [hdigits]; exact List.mem_cons_self
      have hv : v ∈ digits n := by rw [hdigits]; exact List.mem_cons_of_mem u List.mem_cons_self
      have hinfinity : u :: v :: rest ≠ Text.ofString "Infinity" := fun h =>
        hne hu (v := unit 'I') (by decide) (List.cons.inj h).1
      simp only [trimmed?, hne hv (v := unit 'x') (by decide), hne hv (v := unit 'X') (by decide),
        hne hv (v := unit 'o') (by decide), hne hv (v := unit 'O') (by decide),
        hne hv (v := unit 'b') (by decide), hne hv (v := unit 'B') (by decide),
        hne hu (v := unit '-') (by decide), hne hu (v := unit '+') (by decide), or_self, and_false, if_false,
        signed?, hinfinity]

theorem ofDecimal_zero (h : n ≤ exactLimit) : ofDecimal false n 0 = ofNat n := by
  rw [ofDecimal]
  by_cases hzero : n = 0
  · subst hzero
    decide
  have hshort : (Nat.toDigits 10 n).length ≤ 16 :=
    (Nat.length_toDigits_le_iff (by omega) (by omega)).mpr (Nat.lt_of_le_of_lt h (by decide))
  have hscaled : scaled n 10 0 = ((n : Int) : Rat) := by
    rw [scaled, if_pos (Int.le_refl 0), Rat.intCast_natCast]
    show ((n * 1 : Nat) : Rat) = n
    rw [Nat.mul_one]
  rw [if_neg (by omega), if_neg (by omega), hscaled]
  rfl

/-- A natural number reads back as it is printed. -/
theorem ofText_digits (h : n ≤ exactLimit) : ofText (digits n) = ofNat n := by
  rw [ofText, trim_digits, trimmed?_digits, decimal?_digits, ofDecimal_zero h]
  rfl

theorem toInt?_ofNat (h : n ≤ exactLimit) : (ofNat n).toInt? = some (n : Int) := by
  rw [ofNat, ofInt_of_le (i := n) h, toInt?, if_pos (Rat.den_intCast _), Rat.num_intCast]

end CCompletion.Number
