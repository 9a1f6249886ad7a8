import CCompletion.Vocabulary
import Mathlib.Data.List.Nodup

/-!
# The functions of the library

Headers are answered one after the other, each with what the table lists for it, whatever the others are. A name that
the table answers to without having a list for it puts an end to that: then there is no answer at all. None of
these names is a header that the table lists or one of the standard headers.
-/

namespace CCompletion.Vocabulary

variable {header name : Text} {headers functions : List Text}

/-- The functions that the table lists for a header; none for one that it does not list. -/
def listedFunctions (header : Text) : List Text := (libraryTable.lookup header).getD []

/-! ## The table -/

theorem nodup_libraryTable : (libraryTable.map (·.1)).Nodup := by decide +kernel

/-- No header stands in the table twice, so none of its entries hides another. -/
theorem lookup_of_mem_libraryTable {entry : Text × List Text} (h : entry ∈ libraryTable) :
    libraryTable.lookup entry.1 = some entry.2 := by
  obtain ⟨before, behind, htable⟩ := List.append_of_mem h
  refine List.lookup_eq_some_iff.mpr ⟨before, behind, htable, fun other hother => ?_⟩
  have hnodup : (before.map (·.1) ++ entry.1 :: behind.map (·.1)).Nodup := by
    rw [← List.map_cons, ← List.map_append, ← htable]
    exact nodup_libraryTable
  obtain ⟨hnotMem, _⟩ := List.nodup_cons.mp (List.nodup_middle.mp hnodup)
  rw [bne_iff_ne]
  intro heq
  exact hnotMem (List.mem_append_left _ (List.mem_map.mpr ⟨other, hother, heq.symm⟩))

theorem allLibraryFunctions_eq : allLibraryFunctions = (libraryTable.map (·.1)).flatMap listedFunctions := by
  rw [allLibraryFunctions, List.flatMap_map]
  refine List.flatMap_congr fun entry hentry => ?_
  rw [listedFunctions, lookup_of_mem_libraryTable hentry, Option.getD_some]

/-! ## Names without a list -/

theorem notMem_unlistedNames_of_mem_libraryTable {entry : Text × List Text} (h : entry ∈ libraryTable) :
    entry.1 ∉ unlistedNames := by
  have hall : ∀ entry ∈ libraryTable, entry.1 ∉ unlistedNames := by decide +kernel
  exact hall entry h

theorem notMem_unlistedNames (h : isStandardHeader header = true) : header ∉ unlistedNames := by
  have hall : ∀ header ∈ standardHeaders, header ∉ unlistedNames := by decide +kernel
  exact hall header (List.contains_iff_mem.mp h)

theorem lookup_of_mem_unlistedNames (h : name ∈ unlistedNames) : libraryTable.lookup name = none := by
  refine List.lookup_eq_none_iff.mpr fun entry hentry => ?_
  rw [bne_iff_ne]
  rintro rfl
  exact notMem_unlistedNames_of_mem_libraryTable hentry h

/-! ## Lists of headers -/

/-- What one header in front of others adds to the answer. -/
theorem libraryFunctions_cons (header : Text) (headers : List Text) :
    libraryFunctions (header :: headers) =
      if header ∈ unlistedNames then .error ⟨header⟩
      else (libraryFunctions headers).map (listedFunctions header ++ ·) := by
  rw [libraryFunctions, listedFunctions]
  -- The table is asked first, so a name without a list fails only because it is no header in the table.
  by_cases hunlisted : header ∈ unlistedNames
  · rw [lookup_of_mem_unlistedNames hunlisted]
    simp [hunlisted]
  · cases libraryTable.lookup header with
    | some functions => simp [hunlisted]
    | none => cases libraryFunctions headers <;> simp [hunlisted, Except.map]

theorem libraryFunctions_eq (h : ∀ header ∈ headers, header ∉ unlistedNames) :
    libraryFunctions headers = .ok (headers.flatMap listedFunctions) := by
  induction headers with
  | nil => rfl
  | cons header headers ih =>
    obtain ⟨hheader, hheaders⟩ := List.forall_mem_cons.mp h
    rw [libraryFunctions_cons, if_neg hheader, ih hheaders, List.flatMap_cons]
    rfl

theorem libraryFunctions_append (headers more : List Text) :
    libraryFunctions (headers ++ more) = (do
      let functions ← libraryFunctions headers
      let others ← libraryFunctions more
      return functions ++ others) := by
  induction headers with
  | nil =>
    rw [List.nil_append]
    cases libraryFunctions more <;> rfl
  | cons header headers ih =>
    rw [List.cons_append, libraryFunctions_cons, libraryFunctions_cons, ih]
    by_cases hunlisted : header ∈ unlistedNames
    -- Both sides fail here, before any header behind this one is asked for.
    · rw [if_pos hunlisted, if_pos hunlisted]
      rfl
    · rw [if_neg hunlisted, if_neg hunlisted]
      cases libraryFunctions headers with
      | error => rfl
      | ok functions =>
        cases libraryFunctions more with
        | error => rfl
        | ok others => exact congrArg Except.ok (List.append_assoc _ _ _).symm

/-- The name is the first in the list that the table answers to without having a list for it. -/
def IsFirstUnlisted (name : Text) (headers : List Text) : Prop :=
  ∃ before behind, headers = before ++ name :: behind ∧ name ∈ unlistedNames ∧
    ∀ header ∈ before, header ∉ unlistedNames

theorem exists_isFirstUnlisted (h : ¬∀ header ∈ headers, header ∉ unlistedNames) :
    ∃ name, IsFirstUnlisted name headers := by
  induction headers with
  | nil => exact absurd (List.forall_mem_nil _) h
  | cons header headers ih =>
    by_cases hunlisted : header ∈ unlistedNames
    · exact ⟨header, [], headers, rfl, hunlisted, List.forall_mem_nil _⟩
    · have hheaders : ¬∀ header ∈ headers, header ∉ unlistedNames :=
        fun hall => h (List.forall_mem_cons.mpr ⟨hunlisted, hall⟩)
      obtain ⟨name, before, behind, rfl, hname, hbefore⟩ := ih hheaders
      exact ⟨name, header :: before, behind, rfl, hname, List.forall_mem_cons.mpr ⟨hunlisted, hbefore⟩⟩

theorem IsFirstUnlisted.libraryFunctions_eq_error (h : IsFirstUnlisted name headers) :
    libraryFunctions headers = .error ⟨name⟩ := by
  obtain ⟨before, behind, rfl, hname, hbefore⟩ := h
  rw [libraryFunctions_append, libraryFunctions_eq hbefore, libraryFunctions_cons, if_pos hname]
  rfl

theorem libraryFunctions_eq_ok_iff :
    libraryFunctions headers = .ok functions ↔
      (∀ header ∈ headers, header ∉ unlistedNames) ∧ functions = headers.flatMap listedFunctions := by
  by_cases hall : ∀ header ∈ headers, header ∉ unlistedNames
  · rw [libraryFunctions_eq hall, Except.ok.injEq]
    exact ⟨fun heq => ⟨hall, heq.symm⟩, fun h => h.2.symm⟩
  · obtain ⟨name, hfirst⟩ := exists_isFirstUnlisted hall
    rw [hfirst.libraryFunctions_eq_error]
    exact ⟨nofun, fun h => absurd h.1 hall⟩

theorem libraryFunctions_eq_error_iff :
    libraryFunctions headers = .error ⟨name⟩ ↔ IsFirstUnlisted name headers := by
  refine ⟨fun herror => ?_, IsFirstUnlisted.libraryFunctions_eq_error⟩
  by_cases hall : ∀ header ∈ headers, header ∉ unlistedNames
  · rw [libraryFunctions_eq hall] at herror
    cases herror
  · obtain ⟨first, hfirst⟩ := exists_isFirstUnlisted hall
    rw [hfirst.libraryFunctions_eq_error] at herror
    cases herror
    exact hfirst

/-- Headers are answered with what the table lists for each of them in turn, as often as they are named, exactly when
none of them is a name that the table answers to without a list; otherwise the first such name is what the
answer fails at. So the answer to two lists is the answers to both, one behind the other. The standard headers
always have an answer, and that to the headers of the table is all that the library has. -/
theorem libraryFunctions_law (headers more : List Text) :
    (∀ functions, libraryFunctions headers = .ok functions ↔
      (∀ header ∈ headers, header ∉ unlistedNames) ∧ functions = headers.flatMap listedFunctions) ∧
    (∀ name, libraryFunctions headers = .error ⟨name⟩ ↔ IsFirstUnlisted name headers) ∧
    libraryFunctions (headers ++ more) = (do
      let functions ← libraryFunctions headers
      let others ← libraryFunctions more
      return functions ++ others) ∧
    libraryFunctions (headers.filter isStandardHeader) =
      .ok ((headers.filter isStandardHeader).flatMap listedFunctions) ∧
    libraryFunctions (libraryTable.map (·.1)) = .ok allLibraryFunctions := by
  refine ⟨fun _ => libraryFunctions_eq_ok_iff, fun _ => libraryFunctions_eq_error_iff,
    libraryFunctions_append headers more, ?_, ?_⟩
  · exact libraryFunctions_eq fun header hheader => notMem_unlistedNames (List.mem_filter.mp hheader).2
  · rw [allLibraryFunctions_eq]
    exact libraryFunctions_eq (List.forall_mem_map.mpr fun _ => notMem_unlistedNames_of_mem_libraryTable)

/-- A name that no header has leaves the header behind it without an answer, though the table lists nothing
for it. -/
theorem libraryFunctions_constructor :
    let headers := texts ["constructor", "assert.h"]
    libraryTable.lookup (Text.ofString "constructor") = none ∧ headers.flatMap listedFunctions = texts ["assert"] ∧
    libraryFunctions headers = .error ⟨"constructor"⟩ ∧
    libraryFunctions headers ≠ .ok (headers.flatMap listedFunctions) := by
  decide +kernel

end CCompletion.Vocabulary
