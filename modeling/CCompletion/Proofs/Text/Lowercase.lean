import CCompletion.Proofs.Text.Ascii
import CCompletion.Text.Lowercase
import Mathlib.Data.List.Forall2

/-!
# Lowercase around ASCII

The lowercase of a character can hang on its neighbours, and can be longer or shorter than the character. Neither is true
of ASCII: an ASCII part of a text becomes its own lowercase wherever it stands, and its surroundings become something
before and something behind that.
-/

namespace CCompletion.Text

variable {p s t : Text} {u v : CodeUnit}

/-- Small letters in the place of the capitals of ASCII. -/
def lowerUnit (u : CodeUnit) : CodeUnit := if 65 ≤ u ∧ u ≤ 90 then u + 32 else u

theorem toNat_add_caseOffset (h : u.toNat ≤ 90) : (u + 32).toNat = u.toNat + 32 := by
  rw [UInt16.toNat_add]
  show (u.toNat + 32) % 2 ^ 16 = u.toNat + 32
  omega

theorem toNat_lowerUnit (u : CodeUnit) :
    (lowerUnit u).toNat = if 65 ≤ u.toNat ∧ u.toNat ≤ 90 then u.toNat + 32 else u.toNat := by
  unfold lowerUnit
  simp only [UInt16.le_iff_toNat_le, UInt16.reduceToNat]
  split
  · rename_i hcapital
    exact toNat_add_caseOffset hcapital.2
  · rfl

/-! ## Characters of a part of a text -/

theorem ofCodePoints_append (points rest : List Nat) :
    ofCodePoints (points ++ rest) = ofCodePoints points ++ ofCodePoints rest := List.flatMap_append

theorem ofCodePoints_lowerCodePoint (hu : u.toNat < 128) : ofCodePoints (lowerCodePoint u.toNat) = [lowerUnit u] := by
  have hlowered : lowerCodePoint u.toNat = [(lowerUnit u).toNat] := by
    rw [lowerCodePoint, if_pos hu, toNat_lowerUnit]
  have hsmall : (lowerUnit u).toNat < 0x10000 := (lowerUnit u).toNat_lt
  rw [hlowered]
  show ofCodePoint (lowerUnit u).toNat ++ [] = [lowerUnit u]
  rw [ofCodePoint, if_pos hsmall, UInt16.ofNat_toNat, List.append_nil]

/-- The characters of ASCII are lowered one by one; what has been read of them tells only whether the last that
counted was a letter. -/
theorem exists_lowerCodePoints_of_isAscii (hp : p.IsAscii) (cased : Bool) (rest : List Nat) :
    ∃ cased', ofCodePoints (lowerCodePoints cased (p.map (·.toNat) ++ rest)) =
      p.map lowerUnit ++ ofCodePoints (lowerCodePoints cased' rest) := by
  induction p generalizing cased with
  | nil => exact ⟨cased, rfl⟩
  | cons u p ih =>
    obtain ⟨hu, hrest⟩ := hp.of_cons
    obtain ⟨cased', hlower⟩ := ih hrest (if isCaseIgnorable u.toNat then cased else isCased u.toNat)
    -- a sigma is not ASCII
    have hsigma : u.toNat ≠ 0x3A3 := by omega
    refine ⟨cased', ?_⟩
    show ofCodePoints (lowerCodePoints cased (u.toNat :: (p.map (·.toNat) ++ rest))) = _
    rw [lowerCodePoints, if_neg hsigma, ofCodePoints_append, hlower, ofCodePoints_lowerCodePoint hu]
    rfl

/-- Whatever the characters in front become, they stand in front of what the others become. -/
theorem exists_lowerCodePoints_append (cased : Bool) (points rest : List Nat) :
    ∃ before cased', ofCodePoints (lowerCodePoints cased (points ++ rest)) =
      before ++ ofCodePoints (lowerCodePoints cased' rest) := by
  induction points generalizing cased with
  | nil => exact ⟨[], cased, rfl⟩
  | cons c points ih =>
    obtain ⟨before, cased', hlower⟩ := ih (if isCaseIgnorable c then cased else isCased c)
    rw [List.cons_append, lowerCodePoints, ofCodePoints_append, hlower, ← List.append_assoc]
    exact ⟨_, cased', rfl⟩

/-! ## Lowercase of a part of a text -/

theorem exists_toLower_append (hp : p.IsAscii) (t : Text) : ∃ behind, (p ++ t).toLower = p.map lowerUnit ++ behind := by
  obtain ⟨cased, hlower⟩ := exists_lowerCodePoints_of_isAscii hp false t.toCodePoints
  refine ⟨ofCodePoints (lowerCodePoints cased t.toCodePoints), ?_⟩
  unfold toLower
  rw [toCodePoints_append_of_isAscii hp, hlower]

theorem toLower_of_isAscii (hp : p.IsAscii) : p.toLower = p.map lowerUnit := by
  obtain ⟨cased, hlower⟩ := exists_lowerCodePoints_of_isAscii hp false []
  unfold toLower
  rw [toCodePoints_of_isAscii hp, ← List.append_nil (p.map _), hlower]
  exact List.append_nil _

theorem IsAscii.append (hs : s.IsAscii) (ht : t.IsAscii) : (s ++ t).IsAscii :=
  List.forall_mem_append.mpr ⟨hs, ht⟩

theorem toLower_append_of_isAscii (hs : s.IsAscii) (ht : t.IsAscii) :
    (s ++ t).toLower = s.toLower ++ t.toLower := by
  rw [toLower_of_isAscii (hs.append ht), toLower_of_isAscii hs, toLower_of_isAscii ht, List.map_append]

theorem toLower_isPrefix (hp : p.IsAscii) (h : p <+: t) : p.toLower <+: t.toLower := by
  obtain ⟨rest, rfl⟩ := h
  obtain ⟨behind, hlower⟩ := exists_toLower_append hp rest
  rw [hlower, toLower_of_isAscii hp]
  exact List.prefix_append _ _

theorem toLower_isInfix (hp : p.IsAscii) (h : p <:+: t) : p.toLower <:+: t.toLower := by
  obtain ⟨s, rest, rfl⟩ := h
  cases p with
  | nil => exact List.nil_infix
  | cons u p =>
    -- the first unit is no half of a pair, so the text before it is read as if it stood alone
    have hjoint : ∀ v ∈ (u :: p ++ rest).head?, isLowSurrogate v = false := by
      intro v hv
      obtain rfl : u = v := Option.some.inj hv
      exact isLowSurrogate_eq_false hp.of_cons.1
    obtain ⟨before, cased, hbefore⟩ :=
      exists_lowerCodePoints_append false (toCodePoints s) (toCodePoints (u :: p ++ rest))
    obtain ⟨cased', hlower⟩ := exists_lowerCodePoints_of_isAscii hp cased (toCodePoints rest)
    refine ⟨before, ofCodePoints (lowerCodePoints cased' (toCodePoints rest)), ?_⟩
    rw [toLower_of_isAscii hp, List.append_assoc, ← hlower, ← toCodePoints_append_of_isAscii hp, ← hbefore,
      ← toCodePoints_append hjoint, ← List.append_assoc]
    rfl

/-! ## Letter case -/

/-- The second unit is the small letter of the first. -/
def IsCapitalOf (u v : CodeUnit) : Prop := 65 ≤ u ∧ u ≤ 90 ∧ v = u + 32

/-- Two texts are the same but for the case of letters of ASCII. -/
def SameButForCase (s t : Text) : Prop := List.Forall₂ (fun u v => u = v ∨ IsCapitalOf u v ∨ IsCapitalOf v u) s t

theorem lowerUnit_of_isCapitalOf (h : IsCapitalOf u v) :
    lowerUnit u = v ∧ lowerUnit v = v ∧ u.toNat < 128 ∧ v.toNat < 128 := by
  obtain ⟨hlow, hhigh, rfl⟩ := h
  simp only [UInt16.le_iff_toNat_le, UInt16.reduceToNat] at hlow hhigh
  have hsum : (u + 32).toNat = u.toNat + 32 := toNat_add_caseOffset hhigh
  refine ⟨?_, ?_, by omega, by omega⟩
  · apply UInt16.toNat_inj.mp
    rw [toNat_lowerUnit, hsum, if_pos ⟨hlow, hhigh⟩]
  · apply UInt16.toNat_inj.mp
    rw [toNat_lowerUnit, hsum, if_neg (by omega)]

theorem SameButForCase.lower (h : SameButForCase s t) (hs : s.IsAscii) : t.IsAscii ∧ t.toLower = s.toLower := by
  have hboth : t.IsAscii ∧ t.map lowerUnit = s.map lowerUnit := by
    induction h with
    | nil => exact ⟨hs, rfl⟩
    | @cons u v s t hunit _ ih =>
      obtain ⟨hu, hrest⟩ := hs.of_cons
      obtain ⟨ht, hlower⟩ := ih hrest
      rw [List.map_cons, List.map_cons, hlower]
      obtain rfl | hcapital | hcapital := hunit
      · exact ⟨List.forall_mem_cons.mpr ⟨hu, ht⟩, rfl⟩
      · obtain ⟨hlow, hsmall, -, hv⟩ := lowerUnit_of_isCapitalOf hcapital
        exact ⟨List.forall_mem_cons.mpr ⟨hv, ht⟩, by rw [hlow, hsmall]⟩
      · obtain ⟨hlow, hsmall, hv, -⟩ := lowerUnit_of_isCapitalOf hcapital
        exact ⟨List.forall_mem_cons.mpr ⟨hv, ht⟩, by rw [hlow, hsmall]⟩
  rw [toLower_of_isAscii hboth.1, toLower_of_isAscii hs]
  exact hboth

end CCompletion.Text
