import CCompletion.Json.Reader
import CCompletion.Proofs.Number.Rounding
import Mathlib.Data.List.Nodup

/-!
# Objects

What a key leads to is known by its own members alone. The numbers in an object that has been read from a text are ones
that double precision can hold.
-/

namespace CCompletion.Json

variable {key other : Text} {v : Json} {entries members : List (Text × Json)} {fuel : Nat} {t rest : Text}
  {n : Number}

/-! ## Members -/

theorem mem_of_lookup? (h : lookup? key entries = some v) : (key, v) ∈ entries := by
  induction entries with
  | nil => cases h
  | cons entry rest ih =>
    -- the last member with the key is the one that counts
    rw [lookup?] at h
    cases hlater : lookup? key rest with
    | some w =>
      rw [hlater] at h
      exact List.mem_cons_of_mem entry (ih (hlater.trans h))
    | none =>
      rw [hlater] at h
      change (if entry.1 = key then some entry.2 else none) = some v at h
      split at h
      · rename_i heq
        rw [← Option.some.inj h, ← heq]
        exact List.mem_cons_self
      · cases h

/-- Where no key comes twice, every member is found. -/
theorem lookup?_eq_some_iff (h : (entries.map (·.1)).Nodup) : lookup? key entries = some v ↔ (key, v) ∈ entries := by
  refine ⟨mem_of_lookup?, fun hmem => ?_⟩
  induction entries with
  | nil => cases hmem
  | cons entry rest ih =>
    obtain ⟨hentry, hrest⟩ := List.nodup_cons.mp h
    rw [lookup?]
    rcases List.mem_cons.mp hmem with rfl | hmem
    · -- the key does not come again behind its first member
      have hnone : lookup? key rest = none := by
        rw [Option.eq_none_iff_forall_ne_some]
        intro w hw
        exact hentry (List.mem_map.mpr ⟨_, mem_of_lookup? hw, rfl⟩)
      rw [hnone, if_pos rfl]
      rfl
    · rw [ih hrest hmem]
      rfl

theorem ofTexts_inj {ts us : List Text} : ofTexts ts = ofTexts us ↔ ts = us := by
  constructor
  · intro h
    exact List.map_injective_iff.mpr (fun _ _ h => Json.string.inj h) (Json.array.inj h)
  · exact congrArg ofTexts

/-- A member that is put under another key is not seen. -/
theorem lookup?_put_of_ne (h : other ≠ key) (v : Json) (entries : List (Text × Json)) :
    lookup? key (put other v entries) = lookup? key entries := by
  induction entries with
  | nil =>
    show (if other = key then some v else none) = none
    exact if_neg h
  | cons entry entries ih =>
    rw [put]
    split
    · rename_i hentry
      have hne : entry.1 ≠ key := by rwa [hentry]
      rw [lookup?, lookup?, if_neg hne, if_neg hne]
    · rw [lookup?, lookup?, ih]

/-- Neither are members under another key that are dropped. -/
theorem lookup?_filter_of_ne (h : other ≠ key) (entries : List (Text × Json)) :
    lookup? key (entries.filter fun entry => decide (entry.1 ≠ other)) = lookup? key entries := by
  induction entries with
  | nil => rfl
  | cons entry entries ih =>
    by_cases hentry : entry.1 = other
    · rw [List.filter_cons_of_neg (by simpa using hentry), ih, lookup?, if_neg (by rw [hentry]; exact h)]
      cases lookup? key entries with
      | none => rfl
      | some w => rfl
    · rw [List.filter_cons_of_pos (by simpa using hentry), lookup?, lookup?, ih]

/-! ## Numbers that are read -/

/-- The numbers among the values of an object are ones that double precision can hold. -/
def HoldsNumbers (entries : List (Text × Json)) : Prop := ∀ key n, (key, Json.number n) ∈ entries → n.IsHeld

/-- A value is read as a string, an array, an object, a word or a number. -/
theorem value?_cases (h : value? fuel t = some (v, rest)) :
    (∃ s, v = .string s) ∨ (∃ items, v = .array items) ∨ v = .object [] ∨
    (∃ fuel start members, members? fuel start = some (members, rest) ∧ v = ofMembers members) ∨
    (∃ start, keyword? start = some (v, rest)) ∨ ∃ start, numeral? start = some (v, rest) := by
  cases fuel with
  | zero => cases h
  | succ fuel =>
    rw [value?] at h
    split at h
    · cases h
    · rename_i u behind _
      split_ifs at h
      · obtain ⟨found, -, hfound⟩ := Option.map_eq_some_iff.mp h
        exact .inl ⟨found.1, (Prod.mk.inj hfound).1.symm⟩
      · right; left
        split at h
        · cases h
        · split_ifs at h
          · exact ⟨[], (Prod.mk.inj (Option.some.inj h)).1.symm⟩
          · obtain ⟨found, -, hfound⟩ := Option.map_eq_some_iff.mp h
            exact ⟨found.1, (Prod.mk.inj hfound).1.symm⟩
      · right; right
        split at h
        · cases h
        · split_ifs at h
          · exact .inl (Prod.mk.inj (Option.some.inj h)).1.symm
          · obtain ⟨⟨members, after⟩, hmembers, hfound⟩ := Option.map_eq_some_iff.mp h
            obtain ⟨hobject, rfl⟩ := Prod.mk.inj hfound
            exact .inr (.inl ⟨fuel, _, members, hmembers, hobject.symm⟩)
      · right; right; right; right
        cases hkeyword : keyword? (u :: behind) with
        | some found =>
          rw [hkeyword] at h
          exact .inl ⟨u :: behind, hkeyword.trans h⟩
        | none =>
          rw [hkeyword] at h
          exact .inr ⟨u :: behind, h⟩

theorem isHeld_of_numeral? (h : numeral? t = some (.number n, rest)) : n.IsHeld := by
  unfold numeral? at h
  dsimp only at h
  split at h
  · obtain ⟨hvalue, -⟩ := Prod.mk.inj (Option.some.inj h)
    rw [← Json.number.inj hvalue]
    exact Number.isHeld_ofText _
  · cases h

theorem exists_of_numeral? (h : numeral? t = some (v, rest)) : ∃ n, v = .number n := by
  unfold numeral? at h
  dsimp only at h
  split at h
  · exact ⟨_, (Prod.mk.inj (Option.some.inj h)).1.symm⟩
  · cases h

theorem of_keyword? (h : keyword? t = some (v, rest)) : v = .null ∨ ∃ b, v = .bool b := by
  unfold keyword? at h
  split_ifs at h
  · exact .inr ⟨true, (Prod.mk.inj (Option.some.inj h)).1.symm⟩
  · exact .inr ⟨false, (Prod.mk.inj (Option.some.inj h)).1.symm⟩
  · exact .inl (Prod.mk.inj (Option.some.inj h)).1.symm

theorem isHeld_of_value? (h : value? fuel t = some (.number n, rest)) : n.IsHeld := by
  obtain ⟨_, hv⟩ | ⟨_, hv⟩ | hv | ⟨_, _, _, -, hv⟩ | ⟨start, hkeyword⟩ | ⟨start, hnumeral⟩ := value?_cases h
  · cases hv
  · cases hv
  · cases hv
  · cases hv
  · obtain hv | ⟨_, hv⟩ := of_keyword? hkeyword
    · cases hv
    · cases hv
  · exact isHeld_of_numeral? hnumeral

theorem holdsNumbers_cons (hv : ∀ n, v = .number n → n.IsHeld) (h : HoldsNumbers entries) :
    HoldsNumbers ((key, v) :: entries) := by
  intro other n hmem
  obtain heq | hmem := List.mem_cons.mp hmem
  · exact hv n (Prod.mk.inj heq).2.symm
  · exact h other n hmem

theorem holdsNumbers_of_members? (h : members? fuel t = some (members, rest)) : HoldsNumbers members := by
  induction fuel generalizing t members rest with
  | zero => cases h
  | succ fuel ih =>
    rw [members?] at h
    split at h
    · cases h
    · split_ifs at h
      obtain ⟨⟨key, afterKey⟩, -, h⟩ := Option.bind_eq_some_iff.mp h
      dsimp only at h
      split at h
      · cases h
      · split_ifs at h
        obtain ⟨⟨v, after⟩, hvalue, h⟩ := Option.bind_eq_some_iff.mp h
        have hheld : ∀ n, v = .number n → n.IsHeld := by
          rintro n rfl
          exact isHeld_of_value? hvalue
        dsimp only at h
        split at h
        · cases h
        · split_ifs at h
          · obtain ⟨⟨later, more⟩, hlater, hfound⟩ := Option.map_eq_some_iff.mp h
            rw [← (Prod.mk.inj hfound).1]
            exact holdsNumbers_cons hheld (ih hlater)
          · rw [← (Prod.mk.inj (Option.some.inj h)).1]
            exact holdsNumbers_cons hheld nofun

theorem mem_put {entry : Text × Json} (h : entry ∈ put key v entries) : entry = (key, v) ∨ entry ∈ entries := by
  induction entries with
  | nil => exact .inl (List.mem_singleton.mp h)
  | cons first entries ih =>
    rw [put] at h
    split at h
    · rename_i hfirst
      obtain rfl | h := List.mem_cons.mp h
      · exact .inl (by rw [hfirst])
      · exact .inr (List.mem_cons_of_mem first h)
    · obtain rfl | h := List.mem_cons.mp h
      · exact .inr List.mem_cons_self
      · exact (ih h).imp_right (List.mem_cons_of_mem first)

theorem mem_of_mem_foldl_put {entry : Text × Json}
    (h : entry ∈ members.foldl (fun entries m => put m.1 m.2 entries) entries) : entry ∈ members ∨ entry ∈ entries := by
  induction members generalizing entries with
  | nil => exact .inr h
  | cons member members ih =>
    obtain hmem | hmem := ih h
    · exact .inl (List.mem_cons_of_mem member hmem)
    · obtain rfl | hmem := mem_put hmem
      · exact .inl List.mem_cons_self
      · exact .inr hmem

theorem holdsNumbers_ofMembers (h : HoldsNumbers members) (hentries : ofMembers members = .object entries) :
    HoldsNumbers entries := by
  intro key n hmem
  rw [← Json.object.inj hentries, (List.mergeSort_perm _ _).mem_iff] at hmem
  obtain hmem | hmem := mem_of_mem_foldl_put hmem
  · exact h key n hmem
  · cases hmem

theorem holdsNumbers_of_value? (h : value? fuel t = some (.object entries, rest)) : HoldsNumbers entries := by
  obtain ⟨_, hv⟩ | ⟨_, hv⟩ | hv | ⟨_, _, _, hmembers, hv⟩ | ⟨start, hkeyword⟩ | ⟨start, hnumeral⟩ := value?_cases h
  · cases hv
  · cases hv
  · rw [Json.object.inj hv]
    exact nofun
  · exact holdsNumbers_ofMembers (holdsNumbers_of_members? hmembers) hv.symm
  · obtain hv | ⟨_, hv⟩ := of_keyword? hkeyword
    · cases hv
    · cases hv
  · obtain ⟨_, hv⟩ := exists_of_numeral? hnumeral
    cases hv

/-- The numbers of an object that a text holds are ones that double precision can hold. -/
theorem holdsNumbers_of_ofText? (h : ofText? t = some (.object entries)) : HoldsNumbers entries := by
  obtain ⟨⟨v, rest⟩, hvalue, hwhole⟩ := Option.bind_eq_some_iff.mp h
  dsimp only at hwhole
  split at hwhole
  · obtain rfl := Option.some.inj hwhole
    exact holdsNumbers_of_value? hvalue
  · cases hwhole

end CCompletion.Json
