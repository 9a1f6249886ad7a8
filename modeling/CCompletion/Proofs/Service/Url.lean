import CCompletion.Proofs.Text.Ascii
import CCompletion.Service.Url

/-!
# Fields of targets

A target that gives an identifier as the value of its only field is read as this path and this field. Identifiers are
ASCII, so nothing in them is encoded, and none of the units that set the parts of a target apart stands in them.
-/

namespace CCompletion

variable {t : Text} {u : CodeUnit}

/-! ## The bytes of ASCII -/

namespace Text

def asciiBytes (t : Text) : List UInt8 := t.map fun u => UInt8.ofNat u.toNat

theorem flatMap_codePointBytes (h : t.IsAscii) : (t.map (·.toNat)).flatMap codePointBytes = asciiBytes t := by
  induction t with
  | nil => rfl
  | cons u rest ih =>
    obtain ⟨hu, hrest⟩ := h.of_cons
    have hbytes : codePointBytes u.toNat = [UInt8.ofNat u.toNat] := if_pos hu
    rw [List.map_cons, List.flatMap_cons, hbytes, ih hrest]
    rfl

theorem toBytes_of_isAscii (h : t.IsAscii) : t.toBytes = asciiBytes t := by
  rw [toBytes, toCodePoints_of_isAscii h, flatMap_codePointBytes h]

theorem ofBytes_asciiBytes (h : t.IsAscii) : ofBytes (asciiBytes t) = t := by
  induction t with
  | nil => rfl
  | cons u rest ih =>
    obtain ⟨hu, hrest⟩ := h.of_cons
    have hbyte : (UInt8.ofNat u.toNat).toNat = u.toNat := by
      rw [UInt8.toNat_ofNat']
      omega
    have hlead : lead? (UInt8.ofNat u.toNat) = some ⟨0, 0x80, 0xBF, u.toNat⟩ := by
      rw [lead?, if_pos, hbyte]
      rw [UInt8.lt_iff_toNat_lt, hbyte]
      exact hu
    have hunit : ofCodePoint u.toNat = [u] := by
      rw [ofCodePoint, if_pos (by omega), UInt16.ofNat_toNat]
    show ofCodePoints (decode none (UInt8.ofNat u.toNat :: asciiBytes rest)) = u :: rest
    rw [decode, hlead]
    show ofCodePoint u.toNat ++ ofBytes (asciiBytes rest) = u :: rest
    rw [hunit, ih hrest, List.singleton_append]

end Text

/-! ## Decoding -/

namespace Url

theorem decodedBytes?_of_isAscii (h : t.IsAscii) (hpercent : unit '%' ∉ t) :
    decodedBytes? t = some (Text.asciiBytes t) := by
  fun_induction decodedBytes? t with
  | case1 => rfl
  | case2 => simp at hpercent
  | case3 u hu => rw [Text.toBytes_of_isAscii h]
  | case4 u v huv => rcases huv with rfl | rfl <;> simp at hpercent
  | case5 u v huv => rw [Text.toBytes_of_isAscii h]
  | case6 v w rest ih => simp at hpercent
  | case7 u v w rest hu ih =>
    obtain ⟨hfirst, hrest⟩ := h.of_cons
    rw [ih hrest fun hmem => hpercent (List.mem_cons_of_mem u hmem), Text.toBytes_of_isAscii]
    · rfl
    · exact List.forall_mem_singleton.mpr hfirst

/-- What needs no encoding is read as it stands. -/
theorem decode_of_isAscii (h : t.IsAscii) (hpercent : unit '%' ∉ t) : decode t = t := by
  unfold decode
  rw [decodedBytes?_of_isAscii h hpercent]
  show (if _ then Text.ofBytes (Text.asciiBytes t) else t) = t
  rw [Text.ofBytes_asciiBytes h, ite_self]

theorem plusToSpace_of_notMem (h : unit '+' ∉ t) : plusToSpace t = t := by
  induction t with
  | nil => rfl
  | cons u rest ih =>
    rw [List.mem_cons, not_or] at h
    show (if u = unit '+' then unit ' ' else u) :: plusToSpace rest = u :: rest
    rw [if_neg (Ne.symm h.1), ih h.2]

/-! ## Parts of a target -/

theorem cutAt_append_cons {p : CodeUnit → Bool} {before : Text} (h : ∀ v ∈ before, p v = false) (hu : p u = true)
    (after : Text) : cutAt p (before ++ u :: after) = (before, some after) := by
  have hkept : ∀ v ∈ before, (!p v) = true := by
    intro v hv
    rw [h v hv]
    rfl
  have hbefore : (before ++ u :: after).takeWhile (fun v => !p v) = before := by
    rw [List.takeWhile_append_of_pos hkept, List.takeWhile_cons_of_neg (by rw [hu]; decide), List.append_nil]
  have hlength : before.length < (before ++ u :: after).length := by
    rw [List.length_append, List.length_cons]
    omega
  have hafter : (before ++ u :: after).drop (before.length + 1) = after := by
    rw [List.drop_append, List.drop_of_length_le (by omega), Nat.add_sub_cancel_left]
    rfl
  unfold cutAt
  simp only [hbefore, if_pos hlength, hafter]

variable {path key value : Text}

theorem ofTarget_query (hquestion : unit '?' ∉ path) (hsemicolon : unit ';' ∉ path) (hpath : decode path = path)
    (query : Text) : ofTarget (path ++ unit '?' :: query) = ⟨path, some query⟩ := by
  have hcut : cutAt (fun u => u == unit '?' || u == unit ';') (path ++ unit '?' :: query) = (path, some query) := by
    refine cutAt_append_cons (fun v hv => ?_) (by decide) query
    rw [Bool.or_eq_false_iff, beq_eq_false_iff_ne, beq_eq_false_iff_ne]
    exact ⟨fun h => hquestion (h ▸ hv), fun h => hsemicolon (h ▸ hv)⟩
  unfold ofTarget
  rw [hcut]
  show Url.mk (decode path) (some query) = _
  rw [hpath]

/-- A query of one field whose key and value are identifiers gives the key this value only. -/
theorem values_field (hkey : key.IsRun) (hvalue : value.IsRun) (path : Text) :
    values ⟨path, some (key ++ unit '=' :: value)⟩ key = [value] := by
  have hread {t : Text} (h : t.IsRun) : decode (plusToSpace t) = t := by
    rw [plusToSpace_of_notMem (h.notMem (by decide)), decode_of_isAscii h.isAscii (h.notMem (by decide))]
  have hfields : (key ++ unit '=' :: value).splitOn (unit '&') = [key ++ unit '=' :: value] := by
    apply List.splitOn_eq_singleton
    rw [List.mem_append, List.mem_cons]
    rintro (hmem | heq | hmem)
    · exact hkey.notMem (by decide) hmem
    · exact absurd heq (by decide)
    · exact hvalue.notMem (by decide) hmem
  have hcut : cutAt (· == unit '=') (key ++ unit '=' :: value) = (key, some value) := by
    refine cutAt_append_cons (fun v hv => ?_) (by decide) value
    rw [beq_eq_false_iff_ne]
    exact fun h => hkey.notMem (by decide) (h ▸ hv)
  have hfilled : [key ++ unit '=' :: value].filter (· ≠ []) = [key ++ unit '=' :: value] := by simp
  unfold values
  rw [Option.getD_some, hfields, hfilled, List.filterMap_cons, hcut]
  simp only [Option.getD_some, hread hkey, hread hvalue, if_pos, List.filterMap_nil]

end Url
end CCompletion
