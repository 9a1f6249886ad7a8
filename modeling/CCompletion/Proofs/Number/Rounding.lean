import CCompletion.Number.Reader
import Mathlib.Algebra.Order.Field.Power
import Mathlib.Algebra.Order.Ring.Rat
import Mathlib.Tactic.FieldSimp
import Mathlib.Tactic.Linarith
import Mathlib.Tactic.Ring

/-!
# Rounding to double precision

A value that rounding has given is left as it is when it is rounded again: it is a significand of at most 53 bits
times a power of two, and such values fall between no two doubles. Every number that is read from a text is of this kind.
-/

namespace CCompletion.Number

variable {n d N D a m : Nat} {e k : Int} {q r x : Rat}

/-! ## Powers of two -/

theorem natCast_pow_toNat (h : 0 ≤ e) : ((Nat.pow 2 e.toNat : Nat) : Rat) = 2 ^ e := by
  rw [Nat.pow_eq, Nat.cast_pow, ← zpow_natCast, Int.toNat_of_nonneg h]
  rfl

theorem scaled_two (m : Nat) (e : Int) : scaled m 2 e = m * 2 ^ e := by
  unfold scaled
  split
  · rename_i he
    rw [Nat.cast_mul, natCast_pow_toNat he]
  · rename_i he
    have hpow : ((Nat.pow 2 (-e).toNat : Nat) : Rat) = 2 ^ (-e) := natCast_pow_toNat (by omega)
    rw [Rat.mkRat_eq_div, hpow, zpow_neg, div_inv_eq_mul]
    rfl

theorem zpow_le_zpow (h : e ≤ k) : (2 : Rat) ^ e ≤ 2 ^ k := zpow_le_zpow_right₀ (by norm_num) h

theorem lt_of_zpow_lt (h : (2 : Rat) ^ e < 2 ^ k) : e < k := (zpow_lt_zpow_iff_right₀ (by norm_num)).mp h

/-! ## The binary logarithm -/

theorem lt_zpow_iff (hd : 0 < d) :
    (if 0 ≤ k then n < d * Nat.pow 2 k.toNat else n * Nat.pow 2 (-k).toNat < d) ↔ (n : Rat) / d < 2 ^ k := by
  have hd' : (0 : Rat) < d := Nat.cast_pos.mpr hd
  rw [div_lt_iff₀ hd']
  split
  · rename_i hk
    rw [← natCast_pow_toNat hk, ← Nat.cast_mul, Nat.cast_lt, Nat.mul_comm]
  · rename_i hk
    have hpos : (0 : Rat) < 2 ^ (-k) := zpow_pos (by norm_num) _
    have hscale : (2 : Rat) ^ k * d * 2 ^ (-k) = d := by
      rw [zpow_neg]
      field_simp
    rw [← mul_lt_mul_iff_left₀ hpos, hscale, ← natCast_pow_toNat (e := -k) (by omega), ← Nat.cast_mul, Nat.cast_lt]

theorem log2_bounds (hn : n ≠ 0) : (2 : Rat) ^ (n.log2 : Int) ≤ n ∧ (n : Rat) < 2 ^ ((n.log2 : Int) + 1) := by
  have hlow : ((2 ^ n.log2 : Nat) : Rat) ≤ n := Nat.cast_le.mpr (Nat.log2_self_le hn)
  have hhigh : (n : Rat) < ((2 ^ (n.log2 + 1) : Nat) : Rat) := Nat.cast_lt.mpr Nat.lt_log2_self
  rw [Nat.cast_pow, ← zpow_natCast] at hlow hhigh
  exact ⟨hlow, hhigh⟩

/-- The logarithm is the exponent of the power of two at or below the quotient. -/
theorem floorLog2_bounds (hn : n ≠ 0) (hd : d ≠ 0) :
    (2 : Rat) ^ floorLog2 n d ≤ n / d ∧ (n : Rat) / d < 2 ^ (floorLog2 n d + 1) := by
  obtain ⟨hnlow, hnhigh⟩ := log2_bounds hn
  obtain ⟨hdlow, hdhigh⟩ := log2_bounds hd
  have hd' : (0 : Rat) < d := Nat.cast_pos.mpr (Nat.pos_of_ne_zero hd)
  -- the difference of the logarithms is at most one too large
  have hlow : (2 : Rat) ^ ((n.log2 : Int) - d.log2 - 1) ≤ n / d := by
    rw [le_div_iff₀ hd']
    have hsplit : (2 : Rat) ^ ((n.log2 : Int) - d.log2 - 1) * 2 ^ ((d.log2 : Int) + 1) = 2 ^ (n.log2 : Int) := by
      rw [← zpow_add₀ (by norm_num)]
      congr 1
      omega
    calc (2 : Rat) ^ ((n.log2 : Int) - d.log2 - 1) * d
        ≤ 2 ^ ((n.log2 : Int) - d.log2 - 1) * 2 ^ ((d.log2 : Int) + 1) :=
          mul_le_mul_of_nonneg_left hdhigh.le (zpow_nonneg (by norm_num) _)
      _ = 2 ^ (n.log2 : Int) := hsplit
      _ ≤ n := hnlow
  have hhigh : (n : Rat) / d < 2 ^ ((n.log2 : Int) - d.log2 + 1) := by
    rw [div_lt_iff₀ hd']
    have hsplit : (2 : Rat) ^ ((n.log2 : Int) - d.log2 + 1) * 2 ^ (d.log2 : Int) = 2 ^ ((n.log2 : Int) + 1) := by
      rw [← zpow_add₀ (by norm_num)]
      congr 1
      omega
    calc (n : Rat) < 2 ^ ((n.log2 : Int) + 1) := hnhigh
      _ = 2 ^ ((n.log2 : Int) - d.log2 + 1) * 2 ^ (d.log2 : Int) := hsplit.symm
      _ ≤ 2 ^ ((n.log2 : Int) - d.log2 + 1) * d := mul_le_mul_of_nonneg_left hdlow (zpow_nonneg (by norm_num) _)
  unfold floorLog2
  dsimp only
  by_cases hbelow : (n : Rat) / d < 2 ^ ((n.log2 : Int) - d.log2)
  · rw [if_pos ((lt_zpow_iff (Nat.pos_of_ne_zero hd)).mpr hbelow), Int.sub_add_cancel]
    exact ⟨hlow, hbelow⟩
  · rw [if_neg (mt (lt_zpow_iff (Nat.pos_of_ne_zero hd)).mp hbelow)]
    exact ⟨not_lt.mp hbelow, hhigh⟩

/-! ## Rounding to integers -/

theorem divRoundEven_of_eq (hD : 0 < D) (h : (N : Rat) / D = a) : divRoundEven N D = a := by
  have hD' : (D : Rat) ≠ 0 := Nat.cast_ne_zero.mpr (by omega)
  have hN : N = a * D := by
    rw [div_eq_iff hD'] at h
    exact_mod_cast h
  unfold divRoundEven
  dsimp only
  rw [hN, Nat.mul_mod_left, Nat.mul_div_cancel a hD, if_pos (by omega)]

/-- What lies below an integer is rounded to this integer at most. -/
theorem divRoundEven_le (hD : 0 < D) (h : (N : Rat) / D < a) : divRoundEven N D ≤ a := by
  have hN : N < a * D := by
    rw [div_lt_iff₀ (Nat.cast_pos.mpr hD)] at h
    exact_mod_cast h
  have hquotient : N / D < a := (Nat.div_lt_iff_lt_mul hD).mpr hN
  unfold divRoundEven
  dsimp only
  split_ifs <;> omega

/-! ## The nearest double -/

/-- The exponent of the last bit that is kept. -/
def lastBit (n d : Nat) : Int := max (floorLog2 n d - 52) (-1074)

theorem exists_nearestDouble_eq (hd : 0 < d) : ∃ N D : Nat, 0 < D ∧ (N : Rat) / D = n / d / 2 ^ lastBit n d ∧
    nearestDouble n d = (divRoundEven N D, lastBit n d) := by
  unfold nearestDouble
  dsimp only
  rw [← lastBit]
  split
  · rename_i he
    refine ⟨n, d * Nat.pow 2 (lastBit n d).toNat, Nat.mul_pos hd (Nat.pow_pos (by decide)), ?_, rfl⟩
    rw [Nat.cast_mul, natCast_pow_toNat he, div_div]
  · rename_i he
    refine ⟨n * Nat.pow 2 (-lastBit n d).toNat, d, hd, ?_, rfl⟩
    rw [Nat.cast_mul, natCast_pow_toNat (e := -lastBit n d) (by omega), zpow_neg]
    ring

/-- A magnitude that double precision can hold, unless it is too large: at most 53 bits, from a last bit on. -/
def FitsDouble (x : Rat) : Prop := ∃ (m : Nat) (e : Int), m < 2 ^ 53 ∧ -1074 ≤ e ∧ x = m * 2 ^ e

/-- A significand that has been rounded up to 54 bits is a power of two. -/
theorem fitsDouble_of_le (hm : m ≤ 2 ^ 53) (he : -1074 ≤ e) : FitsDouble (m * 2 ^ e) := by
  obtain hlt | rfl := Nat.lt_or_eq_of_le hm
  · exact ⟨m, e, hlt, he, rfl⟩
  · refine ⟨2 ^ 52, e + 1, by decide, by omega, ?_⟩
    rw [zpow_add_one₀ (by norm_num)]
    norm_num
    ring

theorem fitsDouble_nearestDouble (hn : n ≠ 0) (hd : d ≠ 0) :
    FitsDouble (scaled (nearestDouble n d).1 2 (nearestDouble n d).2) := by
  obtain ⟨N, D, hD, hquotient, hnearest⟩ := exists_nearestDouble_eq (n := n) (Nat.pos_of_ne_zero hd)
  rw [hnearest, scaled_two]
  apply fitsDouble_of_le _ (Int.le_max_right _ _)
  apply divRoundEven_le hD
  have hpos : (0 : Rat) < 2 ^ lastBit n d := zpow_pos (by norm_num) _
  have hexponent : floorLog2 n d + 1 ≤ 53 + lastBit n d := by
    unfold lastBit
    omega
  rw [hquotient, div_lt_iff₀ hpos]
  calc (n : Rat) / d < 2 ^ (floorLog2 n d + 1) := (floorLog2_bounds hn hd).2
    _ ≤ 2 ^ (53 + lastBit n d) := zpow_le_zpow hexponent
    _ = ((2 ^ 53 : Nat) : Rat) * 2 ^ lastBit n d := by
      rw [zpow_add₀ (by norm_num)]
      norm_num

/-- A magnitude that fits is a whole number of last bits. -/
theorem exists_natCast_eq (hn : n ≠ 0) (hd : d ≠ 0) (h : FitsDouble ((n : Rat) / d)) :
    ∃ a : Nat, (n : Rat) / d = a * 2 ^ lastBit n d := by
  obtain ⟨m, e, hm, he, hx⟩ := h
  have hpos : (0 : Rat) < 2 ^ e := zpow_pos (by norm_num) _
  have hm' : (m : Rat) < ((2 ^ 53 : Nat) : Rat) := Nat.cast_lt.mpr hm
  have hfirst : floorLog2 n d < 53 + e := by
    apply lt_of_zpow_lt
    calc (2 : Rat) ^ floorLog2 n d ≤ n / d := (floorLog2_bounds hn hd).1
      _ = m * 2 ^ e := hx
      _ < ((2 ^ 53 : Nat) : Rat) * 2 ^ e := mul_lt_mul_of_pos_right hm' hpos
      _ = 2 ^ (53 + e) := by
        rw [zpow_add₀ (by norm_num)]
        norm_num
  have hle : lastBit n d ≤ e := by
    unfold lastBit
    omega
  refine ⟨m * Nat.pow 2 (e - lastBit n d).toNat, ?_⟩
  rw [hx, Nat.cast_mul, natCast_pow_toNat (by omega), mul_assoc, ← zpow_add₀ (by norm_num), Int.sub_add_cancel]

/-- What fits is its own nearest double. -/
theorem scaled_nearestDouble (hn : n ≠ 0) (hd : d ≠ 0) (h : FitsDouble ((n : Rat) / d)) :
    scaled (nearestDouble n d).1 2 (nearestDouble n d).2 = n / d := by
  obtain ⟨N, D, hD, hquotient, hnearest⟩ := exists_nearestDouble_eq (n := n) (Nat.pos_of_ne_zero hd)
  obtain ⟨a, ha⟩ := exists_natCast_eq hn hd h
  have hpos : (0 : Rat) < 2 ^ lastBit n d := zpow_pos (by norm_num) _
  have hwhole : (N : Rat) / D = a := by
    rw [hquotient, ha]
    exact mul_div_cancel_right₀ _ hpos.ne'
  rw [hnearest, scaled_two, divRoundEven_of_eq hD hwhole, ha]

/-! ## Numbers that are held exactly -/

/-- The number is one that double precision can hold. -/
def IsHeld (v : Number) : Prop := ∀ q, v = .finite q → ofRat q = .finite q

theorem natAbs_num_div_den (q : Rat) : (q.num.natAbs : Rat) / q.den = |q| := by
  rw [Rat.abs_def, Rat.divInt_eq_div]
  rfl

theorem signed_abs (q : Rat) : (if q.num < 0 then -|q| else |q|) = q := by
  split
  · rename_i hneg
    rw [abs_of_neg (Rat.num_neg.mp hneg), neg_neg]
  · rename_i hneg
    rw [abs_of_nonneg (Rat.num_nonneg.mp (not_lt.mp hneg))]

/-- Zero is held as the integer that it is. -/
theorem natAbs_num_ne_zero (h : ¬(q.den = 1 ∧ q.num.natAbs ≤ exactLimit)) : q.num.natAbs ≠ 0 := by
  intro hzero
  obtain rfl : q = 0 := Rat.num_eq_zero.mp (Int.natAbs_eq_zero.mp hzero)
  exact h ⟨rfl, Nat.zero_le _⟩

theorem ofRat_of_fitsDouble (hfits : FitsDouble |q|) (hsize : ¬(Nat.pow 2 1024 : Rat) ≤ |q|) :
    ofRat q = .finite q := by
  unfold ofRat
  split
  · rfl
  · rename_i hlarge
    rw [← natAbs_num_div_den] at hfits
    have hnearest := scaled_nearestDouble (natAbs_num_ne_zero hlarge) q.den_nz hfits
    rw [natAbs_num_div_den] at hnearest
    dsimp only
    rw [hnearest, if_neg hsize, signed_abs]

/-- What rounding gives is given again when it is rounded. -/
theorem isHeld_ofRat (q : Rat) : (ofRat q).IsHeld := by
  intro r hr
  unfold ofRat at hr
  split at hr
  · rename_i hsmall
    obtain rfl : q = r := Number.finite.inj hr
    exact if_pos hsmall
  · rename_i hlarge
    have hfits := fitsDouble_nearestDouble (natAbs_num_ne_zero hlarge) q.den_nz
    dsimp only at hr
    split at hr
    · cases hr
    · rename_i hsize
      -- the sign is put back on the magnitude, which is all that counts
      have hmagnitude : |r| = scaled (nearestDouble q.num.natAbs q.den).1 2 (nearestDouble q.num.natAbs q.den).2 := by
        have hnonneg : 0 ≤ scaled (nearestDouble q.num.natAbs q.den).1 2 (nearestDouble q.num.natAbs q.den).2 := by
          rw [scaled_two]
          exact mul_nonneg (Nat.cast_nonneg _) (zpow_nonneg (by norm_num) _)
        rw [← Number.finite.inj hr]
        split
        · rw [abs_neg, abs_of_nonneg hnonneg]
        · rw [abs_of_nonneg hnonneg]
      rw [← hmagnitude] at hfits hsize
      exact ofRat_of_fitsDouble hfits hsize

/-! ## Numbers that are read -/

theorem isHeld_infinite (negative : Bool) : (infinite negative).IsHeld := nofun

theorem isHeld_notANumber : notANumber.IsHeld := nofun

theorem isHeld_ofNat (n : Nat) : (ofNat n).IsHeld := isHeld_ofRat _

theorem isHeld_zero : (finite 0).IsHeld := isHeld_ofNat 0

theorem isHeld_ofDecimal (negative : Bool) (m : Nat) (e : Int) : (ofDecimal negative m e).IsHeld := by
  unfold ofDecimal
  dsimp only
  split_ifs
  · exact isHeld_zero
  · exact isHeld_infinite negative
  · exact isHeld_ofRat _
  · exact isHeld_ofRat _

variable {negative : Bool} {t : Text} {v : Number}

theorem isHeld_of_decimal? (h : decimal? negative t = some v) : v.IsHeld := by
  unfold decimal? at h
  simp only [Option.bind_eq_bind, Option.bind_eq_some_iff] at h
  obtain ⟨m, -, e, -, hv⟩ := h
  rw [← Option.some.inj hv]
  exact isHeld_ofDecimal _ _ _

theorem isHeld_of_signed? (h : signed? negative t = some v) : v.IsHeld := by
  unfold signed? at h
  split at h
  · rw [← Option.some.inj h]
    exact isHeld_infinite negative
  · exact isHeld_of_decimal? h

theorem isHeld_of_trimmed? (h : trimmed? t = some v) : v.IsHeld := by
  have hbased {base : Nat} {digits : Text} (h : (nat? base digits).map ofNat = some v) : v.IsHeld := by
    obtain ⟨n, -, rfl⟩ := Option.map_eq_some_iff.mp h
    exact isHeld_ofNat n
  unfold trimmed? at h
  split at h
  · rw [← Option.some.inj h]
    exact isHeld_zero
  · exact isHeld_of_decimal? h
  · split_ifs at h
    · exact hbased h
    · exact hbased h
    · exact hbased h
    · exact isHeld_of_signed? h
    · exact isHeld_of_signed? h
    · exact isHeld_of_signed? h

theorem isHeld_ofText (t : Text) : (ofText t).IsHeld := by
  unfold ofText
  cases htrimmed : trimmed? t.trim with
  | none => exact isHeld_notANumber
  | some v => exact isHeld_of_trimmed? htrimmed

end CCompletion.Number
