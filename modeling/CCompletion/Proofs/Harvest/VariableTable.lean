import CCompletion.Proofs.Harvest.Declarator
import Mathlib.Order.Lattice.Nat
import Mathlib.Data.List.Induction

/-!
# The table of declared variables

The declarations that the scan finds are put into the table in the order of their positions. So each name stands at
the place of its first declaration, with the position of its last one.
-/

namespace CCompletion.Harvest

variable {t before : Text} {types : List Text} {d e : Declared} {ds : List Declared} {table : VariableTable}

/-! ## Tables -/

namespace VariableTable

/-- The table of a list of declarations that is sorted by position. -/
structure IsOf (ds : List Declared) (table : VariableTable) : Prop where
  nodup : (table.map (·.name)).Nodup
  complete : ∀ d ∈ ds, d.name ∈ table.map (·.name)
  last : ∀ entry ∈ table, entry ∈ ds ∧ ∀ d ∈ ds, d.name = entry.name → d.position ≤ entry.position
  sorted : (table.map (·.name)).Pairwise fun n n' =>
    ∃ d ∈ ds, d.name = n ∧ ∀ d' ∈ ds, d'.name = n' → d.position ≤ d'.position

theorem names_put (entry : Declared) (table : VariableTable) :
    (table.put entry).map (·.name) =
      if entry.name ∈ table.map (·.name) then table.map (·.name) else table.map (·.name) ++ [entry.name] := by
  induction table with
  | nil => rfl
  | cons d rest ih =>
    rw [put]
    split
    · rename_i hname
      rw [List.map_cons, List.map_cons, if_pos (List.mem_cons.mpr (.inl hname.symm)), hname]
    · rename_i hname
      rw [List.map_cons, ih, List.map_cons]
      simp only [List.mem_cons, Ne.symm hname, false_or]
      split <;> rfl

theorem mem_put {entry : Declared} (hnodup : (table.map (·.name)).Nodup) :
    d ∈ table.put entry ↔ d = entry ∨ d ∈ table ∧ d.name ≠ entry.name := by
  induction table with
  | nil => simp [put]
  | cons e rest ih =>
    rw [List.map_cons, List.nodup_cons] at hnodup
    obtain ⟨hfresh, hnodup⟩ := hnodup
    rw [put]
    split
    · rename_i hname
      -- No other entry has the name.
      have hother (hd : d ∈ rest) : d.name ≠ entry.name :=
        fun heq => hfresh (List.mem_map.mpr ⟨d, hd, heq.trans hname.symm⟩)
      simp only [List.mem_cons]
      constructor
      · rintro (hentry | hd)
        · exact .inl hentry
        · exact .inr ⟨.inr hd, hother hd⟩
      · rintro (hentry | ⟨rfl | hd, hne⟩)
        · exact .inl hentry
        · exact absurd hname hne
        · exact .inr hd
    · rename_i hname
      rw [List.mem_cons, ih hnodup, List.mem_cons]
      constructor
      · rintro (rfl | hentry | ⟨hd, hne⟩)
        · exact .inr ⟨.inl rfl, hname⟩
        · exact .inl hentry
        · exact .inr ⟨.inr hd, hne⟩
      · rintro (hentry | ⟨rfl | hd, hne⟩)
        · exact .inr (.inl hentry)
        · exact .inl rfl
        · exact .inr (.inr ⟨hd, hne⟩)

/-- An entry that stands behind all others comes last in the list. -/
theorem IsOf.put (h : IsOf ds table) (hlast : ∀ d ∈ ds, d.position ≤ e.position) : IsOf (ds ++ [e]) (table.put e) := by
  have hnames := names_put e table
  constructor
  · rw [hnames]
    split
    · exact h.nodup
    · rename_i hfresh
      refine List.nodup_append.mpr ⟨h.nodup, List.pairwise_singleton _ _, ?_⟩
      rintro n hn n' hn' rfl
      exact hfresh (List.mem_singleton.mp hn' ▸ hn)
  · intro d hd
    rw [hnames]
    rcases List.mem_append.mp hd with hd | hd
    · split
      · exact h.complete d hd
      · exact List.mem_append_left _ (h.complete d hd)
    · obtain rfl := List.mem_singleton.mp hd
      split
      · assumption
      · exact List.mem_append_right _ List.mem_cons_self
  · intro entry hentry
    rcases (mem_put h.nodup).mp hentry with rfl | ⟨hold, hne⟩
    · refine ⟨List.mem_append_right ds List.mem_cons_self, fun d hd _ => ?_⟩
      rcases List.mem_append.mp hd with hd | hd
      · exact hlast d hd
      · exact Nat.le_of_eq (congrArg Declared.position (List.mem_singleton.mp hd))
    · obtain ⟨hmem, hgreatest⟩ := h.last entry hold
      refine ⟨List.mem_append_left _ hmem, fun d hd hname => ?_⟩
      rcases List.mem_append.mp hd with hd | hd
      · exact hgreatest d hd hname
      · rw [List.mem_singleton.mp hd] at hname
        exact absurd hname.symm hne
  · -- A declaration of a name is still the first one when another comes behind it.
    have hkeep {d : Declared} {n' : Text} (hd : d ∈ ds)
        (hfirst : ∀ d' ∈ ds, d'.name = n' → d.position ≤ d'.position) :
        ∀ d' ∈ ds ++ [e], d'.name = n' → d.position ≤ d'.position := by
      intro d' hd' hname
      rcases List.mem_append.mp hd' with hd' | hd'
      · exact hfirst d' hd' hname
      · exact List.mem_singleton.mp hd' ▸ hlast d hd
    have hsorted : (table.map (·.name)).Pairwise fun n n' =>
        ∃ d ∈ ds ++ [e], d.name = n ∧ ∀ d' ∈ ds ++ [e], d'.name = n' → d.position ≤ d'.position := by
      refine h.sorted.imp ?_
      rintro n n' ⟨d, hd, hname, hfirst⟩
      exact ⟨d, List.mem_append_left _ hd, hname, hkeep hd hfirst⟩
    rw [hnames]
    split
    · exact hsorted
    · rename_i hfresh
      refine List.pairwise_append.mpr ⟨hsorted, List.pairwise_singleton _ _, fun n hn n' hn' => ?_⟩
      obtain rfl := List.mem_singleton.mp hn'
      obtain ⟨entry, hentry, rfl⟩ := List.mem_map.mp hn
      have hmem := (h.last entry hentry).1
      refine ⟨entry, List.mem_append_left _ hmem, rfl, hkeep hmem fun d' hd' hname => ?_⟩
      exact absurd (hname ▸ h.complete d' hd') hfresh

theorem isOf_foldl (h : ds.Pairwise fun d d' => d.position ≤ d'.position) :
    IsOf ds (ds.foldl (fun table d => table.put d) []) := by
  -- From the end of the list, as an entry that is put last stands behind all others.
  induction ds using List.reverseRecOn with
  | nil => exact ⟨List.nodup_nil, nofun, nofun, List.Pairwise.nil⟩
  | append_singleton ds e ih =>
    obtain ⟨hsorted, _, hlast⟩ := List.pairwise_append.mp h
    rw [List.foldl_concat]
    exact (ih hsorted).put fun d hd => hlast d hd e List.mem_cons_self

end VariableTable

/-! ## Declared variables -/

/-- The places at which the scan finds a name declared. -/
def declaredPositions (before : Text) (types : List Text) (name : Text) : Set Nat :=
  {p | Finds (maskNonCode before) types ⟨name, p⟩}

theorem exists_isOf_declaredVariables (before : Text) (types : List Text) :
    ∃ ds, (∀ d, d ∈ ds ↔ d.position ∈ declaredPositions before types d.name) ∧
      VariableTable.IsOf ds (declaredVariables before types) := by
  refine ⟨_, fun d => ?_, VariableTable.isOf_foldl ?_⟩
  · rw [List.mem_mergeSort, declaredPositions, Set.mem_ofPred_eq, ← mem_declarations_iff_finds]
    simp only [declarationShapes, List.flatMap_cons, List.flatMap_nil, List.append_nil]
  · have htrans (a b c : Declared) (hab : decide (a.position ≤ b.position) = true)
        (hbc : decide (b.position ≤ c.position) = true) : decide (a.position ≤ c.position) = true :=
      decide_eq_true (Nat.le_trans (of_decide_eq_true hab) (of_decide_eq_true hbc))
    have htotal (a b : Declared) : (decide (a.position ≤ b.position) || decide (b.position ≤ a.position)) = true := by
      rw [Bool.or_eq_true, decide_eq_true_iff, decide_eq_true_iff]
      exact Nat.le_total _ _
    exact (List.pairwise_mergeSort htrans htotal _).imp of_decide_eq_true

theorem name_mem_declaredVariables_iff {name : Text} :
    (∃ entry ∈ declaredVariables before types, entry.name = name) ↔ (declaredPositions before types name).Nonempty := by
  obtain ⟨ds, hds, htable⟩ := exists_isOf_declaredVariables before types
  constructor
  · rintro ⟨entry, hentry, rfl⟩
    exact ⟨entry.position, (hds entry).mp (htable.last entry hentry).1⟩
  · rintro ⟨p, hp⟩
    exact List.mem_map.mp (htable.complete ⟨name, p⟩ ((hds _).mpr hp))

theorem isGreatest_of_mem_declaredVariables (h : d ∈ declaredVariables before types) :
    IsGreatest (declaredPositions before types d.name) d.position := by
  obtain ⟨ds, hds, htable⟩ := exists_isOf_declaredVariables before types
  obtain ⟨hmem, hgreatest⟩ := htable.last d h
  exact ⟨(hds d).mp hmem, fun p hp => hgreatest ⟨d.name, p⟩ ((hds _).mpr hp) rfl⟩

theorem eq_of_mem_declaredPositions {name name' : Text} {p : Nat} (h : p ∈ declaredPositions before types name)
    (h' : p ∈ declaredPositions before types name') : name = name' :=
  h.isWord.word.unique h'.isWord.word (Text.isRun_of_isIdentifier h.isWord.isIdentifier)
    (Text.isRun_of_isIdentifier h'.isWord.isIdentifier)

/-- Names stand in the order of their first declarations. -/
theorem pairwise_declaredVariables (before : Text) (types : List Text) :
    (declaredVariables before types).Pairwise fun d d' =>
      ∃ p, IsLeast (declaredPositions before types d.name) p ∧
        ∀ p' ∈ declaredPositions before types d'.name, p < p' := by
  obtain ⟨ds, hds, htable⟩ := exists_isOf_declaredVariables before types
  have hsorted := List.pairwise_map.mp (htable.sorted.and htable.nodup)
  refine hsorted.imp ?_
  rintro d d' ⟨⟨e, he, hname, hfirst⟩, hne⟩
  have hmem : e.position ∈ declaredPositions before types d.name := hname ▸ (hds e).mp he
  refine ⟨_, ⟨Nat.sInf_mem ⟨_, hmem⟩, fun p hp => Nat.sInf_le hp⟩, fun p' hp' => ?_⟩
  have hle := (Nat.sInf_le hmem).trans (hfirst ⟨d'.name, p'⟩ ((hds _).mpr hp') rfl)
  refine Nat.lt_of_le_of_ne hle fun heq => hne ?_
  exact eq_of_mem_declaredPositions (heq ▸ Nat.sInf_mem ⟨_, hmem⟩) hp'

/-- The declared variables before an offset: each is a whole word of the code there, with the place of its last
declaration, and they stand in the order of their first ones. The scan of a declaration goes on to later places
only, and ends. -/
theorem declaredVariables_positions (t : Text) (k : Nat) (types : List Text) :
    (∀ d ∈ declaredVariables (t.take k) types,
      Text.StandsAt d.name t d.position ∧ d.position + d.name.length ≤ k ∧ IsCodeWord (t.take k) d.position d.name ∧
      d.name.isIdentifier = true ∧ Vocabulary.isReserved d.name = false ∧
      IsGreatest (declaredPositions (t.take k) types d.name) d.position) ∧
    (∀ name, (declaredPositions (t.take k) types name).Nonempty →
      ∃ d ∈ declaredVariables (t.take k) types, d.name = name) ∧
    ((declaredVariables (t.take k) types).Pairwise fun d d' =>
      ∃ p, IsLeast (declaredPositions (t.take k) types d.name) p ∧
        ∀ p' ∈ declaredPositions (t.take k) types d'.name, p < p') ∧
    (∀ masked d d', Continues masked d d' → d.position < d'.position) ∧
    ∀ masked, WellFounded fun d' d => Continues masked d d' := by
  refine ⟨fun d hd => ?_, fun name => name_mem_declaredVariables_iff.mpr, pairwise_declaredVariables _ _,
    fun _ _ _ => Continues.position_lt, wellFounded_continues⟩
  have hgreatest := isGreatest_of_mem_declaredVariables hd
  have hfinds : Finds (maskNonCode (t.take k)) types d := hgreatest.1
  have hword := hfinds.isWord
  have hcode := isCodeWord_of_mask hword.word (Text.isRun_of_isIdentifier hword.isIdentifier)
    (Text.ne_nil_of_isIdentifier hword.isIdentifier)
  have hle := hword.le_length
  rw [length_maskNonCode, List.length_take] at hle
  exact ⟨(Text.standsAt_take.mp hcode.word.stands).1, Nat.le_trans hle (Nat.min_le_left _ _), hcode, hword.isIdentifier,
    hfinds.1, hgreatest⟩

end CCompletion.Harvest
