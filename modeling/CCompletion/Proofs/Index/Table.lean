import CCompletion.Index.Table
import CCompletion.Proofs.Text.Order

/-!
# What harvesting does to a table

Each list of a table gains exactly what the harvested file names and keeps all it had, without repetitions.
A file that the table covers already changes nothing, so files may be harvested again and again.
-/

namespace CCompletion.SymbolTable

/-! ## Insertion -/

theorem mem_insertNew {xs : List Text} {x y : Text} : y ∈ insertNew xs x ↔ y ∈ xs ∨ y = x := by
  unfold insertNew
  split
  · exact ⟨.inl, fun h => h.elim id (· ▸ ‹_›)⟩
  · simp

theorem nodup_insertNew {xs : List Text} (h : xs.Nodup) (x : Text) : (insertNew xs x).Nodup := by
  unfold insertNew
  split
  · exact h
  · rename_i hx
    refine List.nodup_append.mpr ⟨h, List.nodup_singleton x, ?_⟩
    rintro y hy z hz rfl
    exact hx (List.mem_singleton.mp hz ▸ hy)

theorem insertNew_eq_self {xs : List Text} {x : Text} (h : x ∈ xs) : insertNew xs x = xs := if_pos h

theorem mem_foldl_insertNew {xs ys : List Text} {y : Text} :
    y ∈ ys.foldl insertNew xs ↔ y ∈ xs ∨ y ∈ ys := by
  induction ys generalizing xs with
  | nil => simp
  | cons z ys ih => rw [List.foldl_cons, ih, mem_insertNew, List.mem_cons, or_assoc]

theorem nodup_foldl_insertNew {xs : List Text} (h : xs.Nodup) (ys : List Text) :
    (ys.foldl insertNew xs).Nodup := by
  induction ys generalizing xs with
  | nil => exact h
  | cons z ys ih => exact ih (nodup_insertNew h z)

theorem foldl_insertNew_eq_self {xs ys : List Text} (h : ∀ y ∈ ys, y ∈ xs) :
    ys.foldl insertNew xs = xs := by
  induction ys with
  | nil => rfl
  | cons z ys ih =>
    rw [List.foldl_cons, insertNew_eq_self (h z List.mem_cons_self)]
    exact ih fun y hy => h y (List.mem_cons_of_mem z hy)

/-- The files of a function, in the order in which they were found; none for other names. -/
def filesOf (functions : List IndexedFunction) (name : Text) : List Text :=
  match functions.find? fun f => f.name = name with
  | some f => f.files
  | none => []

theorem filesOf_cons (f : IndexedFunction) (functions : List IndexedFunction) (name : Text) :
    filesOf (f :: functions) name = if f.name = name then f.files else filesOf functions name := by
  unfold filesOf
  rw [List.find?_cons]
  by_cases h : f.name = name <;> simp [h]

theorem filesDefining_eq (table : SymbolTable) (name : Text) :
    table.filesDefining name = Text.sorted (filesOf table.functions name) := by
  unfold filesDefining filesOf
  cases table.functions.find? fun f => f.name = name with
  | some f => rfl
  | none => exact List.mergeSort_nil.symm

theorem map_name_insertFunction (file : Text) (functions : List IndexedFunction) (name : Text) :
    (insertFunction file functions name).map (·.name) = insertNew (functions.map (·.name)) name := by
  induction functions with
  | nil => rfl
  | cons f rest ih =>
    by_cases h : f.name = name
    · subst h
      rw [insertFunction, if_pos rfl, List.map_cons, List.map_cons,
        insertNew_eq_self List.mem_cons_self]
    · rw [insertFunction, if_neg h, List.map_cons, List.map_cons, ih]
      -- The name is added at the end unless it stands further on.
      by_cases hrest : name ∈ rest.map (·.name)
      · rw [insertNew_eq_self hrest, insertNew_eq_self (List.mem_cons_of_mem _ hrest)]
      · rw [insertNew, if_neg hrest, insertNew, if_neg (by simpa [Ne.symm h] using hrest),
          List.cons_append]

theorem filesOf_insertFunction (file : Text) (functions : List IndexedFunction) (name n : Text) :
    filesOf (insertFunction file functions name) n =
      if name = n then insertNew (filesOf functions n) file else filesOf functions n := by
  induction functions with
  | nil =>
    rw [insertFunction, filesOf_cons]
    split <;> rfl
  | cons f rest ih =>
    by_cases h : f.name = name
    · rw [insertFunction, if_pos h, filesOf_cons, filesOf_cons]
      by_cases hn : f.name = n
      · rw [if_pos hn, if_pos hn, if_pos (h ▸ hn)]
      · rw [if_neg hn, if_neg hn, if_neg (h ▸ hn)]
    · rw [insertFunction, if_neg h, filesOf_cons, filesOf_cons, ih]
      by_cases hn : f.name = n
      · rw [if_pos hn, if_pos hn, if_neg (fun heq => h (hn.trans heq.symm))]
      · rw [if_neg hn, if_neg hn]

theorem insertFunction_eq_self {file name : Text} {functions : List IndexedFunction}
    (h : file ∈ filesOf functions name) : insertFunction file functions name = functions := by
  induction functions with
  | nil => cases h
  | cons f rest ih =>
    rw [filesOf_cons] at h
    by_cases hname : f.name = name
    · rw [if_pos hname] at h
      rw [insertFunction, if_pos hname, insertNew_eq_self h]
    · rw [if_neg hname] at h
      rw [insertFunction, if_neg hname, ih h]

theorem map_name_foldl_insertFunction (file : Text) (functions : List IndexedFunction)
    (names : List Text) :
    (names.foldl (insertFunction file) functions).map (·.name) =
      names.foldl insertNew (functions.map (·.name)) := by
  induction names generalizing functions with
  | nil => rfl
  | cons name names ih => rw [List.foldl_cons, ih, map_name_insertFunction, List.foldl_cons]

theorem mem_filesOf_foldl_insertFunction {file path : Text} {functions : List IndexedFunction}
    {names : List Text} {n : Text} :
    path ∈ filesOf (names.foldl (insertFunction file) functions) n ↔
      path ∈ filesOf functions n ∨ (path = file ∧ n ∈ names) := by
  induction names generalizing functions with
  | nil => simp
  | cons name names ih =>
    rw [List.foldl_cons, ih, filesOf_insertFunction, List.mem_cons]
    by_cases h : name = n
    · subst h
      rw [if_pos rfl, mem_insertNew]
      tauto
    · rw [if_neg h]
      simp [Ne.symm h]

theorem nodup_filesOf_foldl_insertFunction {functions : List IndexedFunction} {n : Text}
    (h : (filesOf functions n).Nodup) (file : Text) (names : List Text) :
    (filesOf (names.foldl (insertFunction file) functions) n).Nodup := by
  induction names generalizing functions with
  | nil => exact h
  | cons name names ih =>
    refine ih ?_
    rw [filesOf_insertFunction]
    split
    · exact nodup_insertNew h file
    · exact h

theorem foldl_insertFunction_eq_self {file : Text} {functions : List IndexedFunction}
    {names : List Text} (h : ∀ name ∈ names, file ∈ filesOf functions name) :
    names.foldl (insertFunction file) functions = functions := by
  induction names with
  | nil => rfl
  | cons name names ih =>
    rw [List.foldl_cons, insertFunction_eq_self (h name List.mem_cons_self)]
    exact ih fun n hn => h n (List.mem_cons_of_mem name hn)

/-! ## Harvesting -/

section Harvest

variable {table : SymbolTable} {file content : Text}

theorem mem_headers_harvest {header : Text} :
    header ∈ (table.harvest file content).headers ↔
      header ∈ table.headers ∨ header ∈ Harvest.includes content := mem_foldl_insertNew

theorem mem_types_harvest {type : Text} :
    type ∈ (table.harvest file content).types ↔
      type ∈ table.types ∨ type ∈ Harvest.typeNames content := mem_foldl_insertNew

theorem functionNames_harvest (table : SymbolTable) (file content : Text) :
    (table.harvest file content).functionNames =
      (Harvest.functions content).foldl insertNew table.functionNames :=
  map_name_foldl_insertFunction _ _ _

theorem mem_functionNames_harvest {name : Text} :
    name ∈ (table.harvest file content).functionNames ↔
      name ∈ table.functionNames ∨ name ∈ Harvest.functions content := by
  rw [functionNames_harvest, mem_foldl_insertNew]

theorem mem_filesOf_harvest {name path : Text} :
    path ∈ filesOf (table.harvest file content).functions name ↔
      path ∈ filesOf table.functions name ∨ (path = file ∧ name ∈ Harvest.functions content) :=
  mem_filesOf_foldl_insertFunction

/-- No list of a table names anything twice. -/
structure Distinct (table : SymbolTable) : Prop where
  functionNames : table.functionNames.Nodup
  filesOf : ∀ name, (filesOf table.functions name).Nodup
  headers : table.headers.Nodup
  types : table.types.Nodup

theorem distinct_empty (root : Option Text) : Distinct { root := root } :=
  ⟨List.nodup_nil, fun _ => List.nodup_nil, List.nodup_nil, List.nodup_nil⟩

theorem Distinct.harvest (h : table.Distinct) (file content : Text) :
    (table.harvest file content).Distinct where
  functionNames := by
    rw [functionNames_harvest]
    exact nodup_foldl_insertNew h.functionNames _
  filesOf name := nodup_filesOf_foldl_insertFunction (h.filesOf name) _ _
  headers := nodup_foldl_insertNew h.headers _
  types := nodup_foldl_insertNew h.types _

/-- Does the table hold all that a file's content names? -/
structure Covers (table : SymbolTable) (file content : Text) : Prop where
  functions : ∀ name ∈ Harvest.functions content, file ∈ filesOf table.functions name
  headers : ∀ header ∈ Harvest.includes content, header ∈ table.headers
  types : ∀ type ∈ Harvest.typeNames content, type ∈ table.types

theorem covers_harvest (table : SymbolTable) (file content : Text) :
    (table.harvest file content).Covers file content where
  functions _ h := mem_filesOf_harvest.mpr (.inr ⟨rfl, h⟩)
  headers _ h := mem_headers_harvest.mpr (.inr h)
  types _ h := mem_types_harvest.mpr (.inr h)

theorem Covers.harvest (h : table.Covers file content) (file' content' : Text) :
    (table.harvest file' content').Covers file content where
  functions name hname := mem_filesOf_harvest.mpr (.inl (h.functions name hname))
  headers header hheader := mem_headers_harvest.mpr (.inl (h.headers header hheader))
  types type htype := mem_types_harvest.mpr (.inl (h.types type htype))

theorem harvest_eq_self (h : table.Covers file content) : table.harvest file content = table := by
  unfold SymbolTable.harvest
  rw [foldl_insertFunction_eq_self h.functions, foldl_insertNew_eq_self h.headers,
    foldl_insertNew_eq_self h.types]

end Harvest

/-! ## Harvesting many files -/

/-- Takes in files with their contents, one after the other. -/
def harvestAll (table : SymbolTable) (files : List (Text × Text)) : SymbolTable :=
  files.foldl (fun table file => table.harvest file.1 file.2) table

section HarvestAll

variable {table : SymbolTable} {files : List (Text × Text)}

/-- A list that gains the names of each harvested file gains those of many files. -/
theorem mem_harvestAll {list : SymbolTable → List Text} {names : Text → List Text}
    (hstep : ∀ table file content name,
      name ∈ list (table.harvest file content) ↔ name ∈ list table ∨ name ∈ names content) {name : Text} :
    name ∈ list (table.harvestAll files) ↔ name ∈ list table ∨ ∃ file ∈ files, name ∈ names file.2 := by
  induction files generalizing table with
  | nil => simp [harvestAll]
  | cons file files ih =>
    rw [harvestAll, List.foldl_cons]
    refine ih.trans ?_
    rw [hstep, or_assoc, List.exists_mem_cons_iff]

theorem mem_headers_harvestAll {header : Text} :
    header ∈ (table.harvestAll files).headers ↔
      header ∈ table.headers ∨ ∃ file ∈ files, header ∈ Harvest.includes file.2 :=
  mem_harvestAll fun _ _ _ _ => mem_headers_harvest

theorem mem_types_harvestAll {type : Text} :
    type ∈ (table.harvestAll files).types ↔
      type ∈ table.types ∨ ∃ file ∈ files, type ∈ Harvest.typeNames file.2 :=
  mem_harvestAll fun _ _ _ _ => mem_types_harvest

theorem mem_functionNames_harvestAll {name : Text} :
    name ∈ (table.harvestAll files).functionNames ↔
      name ∈ table.functionNames ∨ ∃ file ∈ files, name ∈ Harvest.functions file.2 :=
  mem_harvestAll fun _ _ _ _ => mem_functionNames_harvest

theorem mem_filesOf_harvestAll {name path : Text} :
    path ∈ filesOf (table.harvestAll files).functions name ↔
      path ∈ filesOf table.functions name ∨
        ∃ content, (path, content) ∈ files ∧ name ∈ Harvest.functions content := by
  induction files generalizing table with
  | nil => simp [harvestAll]
  | cons file files ih =>
    rw [harvestAll, List.foldl_cons]
    refine ih.trans ?_
    rw [mem_filesOf_harvest, or_assoc]
    refine or_congr_right ⟨?_, ?_⟩
    · rintro (⟨rfl, hname⟩ | ⟨content, hmem, hname⟩)
      · exact ⟨file.2, List.mem_cons_self, hname⟩
      · exact ⟨content, List.mem_cons_of_mem file hmem, hname⟩
    · rintro ⟨content, hmem, hname⟩
      rcases List.mem_cons.mp hmem with rfl | hmem
      · exact .inl ⟨rfl, hname⟩
      · exact .inr ⟨content, hmem, hname⟩

theorem Distinct.harvestAll (h : table.Distinct) (files : List (Text × Text)) :
    (table.harvestAll files).Distinct := by
  induction files generalizing table with
  | nil => exact h
  | cons file files ih => exact ih (h.harvest file.1 file.2)

theorem root_harvestAll (table : SymbolTable) (files : List (Text × Text)) :
    (table.harvestAll files).root = table.root := by
  induction files generalizing table with
  | nil => rfl
  | cons file files ih => exact ih _

end HarvestAll

end CCompletion.SymbolTable
