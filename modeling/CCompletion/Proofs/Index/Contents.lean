import CCompletion.Proofs.Harvest.Name
import CCompletion.Proofs.Index.Queue

/-!
# What a finished scan leaves behind

The table that readers see after some scans is the harvest of the files that the last of them could read,
whatever the scans before it found. It does not depend on the arrangement of the listed paths, nor
on how often each of them is listed.
-/

namespace CCompletion

/-- A table is the harvest of some files when it names all that they name, and nothing else. -/
structure SymbolTable.IsHarvestOf (table : SymbolTable) (files : List (Text × Text)) : Prop where
  distinct : table.Distinct
  mem_functionNames : ∀ name, name ∈ table.functionNames ↔ ∃ file ∈ files, name ∈ Harvest.functions file.2
  ascending_filesDefining : ∀ name, Text.Ascending (table.filesDefining name)
  mem_filesDefining : ∀ name path, path ∈ table.filesDefining name ↔
    ∃ content, (path, content) ∈ files ∧ name ∈ Harvest.functions content
  mem_headers : ∀ header, header ∈ table.headers ↔ ∃ file ∈ files, header ∈ Harvest.includes file.2
  mem_types : ∀ type, type ∈ table.types ↔ ∃ file ∈ files, type ∈ Harvest.typeNames file.2

namespace SymbolTable

variable {table : SymbolTable} {files : List (Text × Text)}

theorem isHarvestOf_harvestAll (root : Option Text) (files : List (Text × Text)) :
    (harvestAll { root := root } files).IsHarvestOf files := by
  have hdistinct : (harvestAll { root := root } files).Distinct := (distinct_empty root).harvestAll files
  refine ⟨hdistinct, fun name => ?_, fun name => ?_, fun name path => ?_, fun header => ?_, fun type => ?_⟩
  · rw [mem_functionNames_harvestAll]
    simp [functionNames]
  · rw [filesDefining_eq]
    exact Text.ascending_sorted (hdistinct.filesOf name)
  · rw [filesDefining_eq, Text.mem_sorted, mem_filesOf_harvestAll]
    simp [filesOf]
  · rw [mem_headers_harvestAll]
    simp
  · rw [mem_types_harvestAll]
    simp

theorem IsHarvestOf.filesDefining_eq_nil (h : table.IsHarvestOf files) {name : Text}
    (hname : name ∉ table.functionNames) : table.filesDefining name = [] := by
  refine List.eq_nil_iff_forall_not_mem.mpr fun path hpath => hname ?_
  obtain ⟨content, hmem, hcontent⟩ := (h.mem_filesDefining name path).mp hpath
  exact (h.mem_functionNames name).mpr ⟨_, hmem, hcontent⟩

theorem IsHarvestOf.isIdentifier_function (h : table.IsHarvestOf files) {name : Text}
    (hname : name ∈ table.functionNames) : name.isIdentifier = true := by
  obtain ⟨file, _, hfile⟩ := (h.mem_functionNames name).mp hname
  exact Harvest.isIdentifier_of_mem_functions hfile

theorem IsHarvestOf.isIdentifier_type (h : table.IsHarvestOf files) {type : Text}
    (htype : type ∈ table.types) : type.isIdentifier = true := by
  obtain ⟨file, _, hfile⟩ := (h.mem_types type).mp htype
  exact Harvest.isIdentifier_of_mem_typeNames hfile

end SymbolTable

theorem mem_headers_lastTable {scans : List FinishedScan} {header : Text} :
    header ∈ (lastTable scans).headers ↔
      ∃ s ∈ scans.getLast?, ∃ file ∈ s.readable, header ∈ Harvest.includes file.2 := by
  rw [lastTable]
  cases scans.getLast? with
  | none => simp
  | some s =>
    have hharvest : s.table.IsHarvestOf s.readable := SymbolTable.isHarvestOf_harvestAll _ _
    simpa using hharvest.mem_headers header

/-! ## Scans one after the other -/

/-- The history of scans each of which is requested once the one before it has finished. -/
def historyOf (scans : List FinishedScan) : List ScanEvent :=
  scans.flatMap fun s => .requested s.root :: s.answers

namespace ScanQueue

/-- Going on with a scan does not depend on what was under way before. -/
theorem continueWith_running (q : ScanQueue) (stage? : Option ScanStage) (d : Draft) (rest : List Text) :
    { q with running := stage? }.continueWith d rest = q.continueWith d rest := by
  cases rest with
  | cons next rest => rfl
  | nil => simp only [continueWith, finish, beginNext]

/-- A scan that is told a content for each of its files ends with the draft that takes them all in. -/
theorem run_reads (q : ScanQueue) (d : Draft) {rest : List Text} {contents : List (Option Text)}
    (hlength : rest.length = contents.length) :
    ∃ warnings, (q.continueWith d rest).run (contents.map .read) =
      (q.warn warnings).finish (d.feed (rest.zip contents)) := by
  induction rest generalizing q d contents with
  | nil =>
    obtain rfl := List.length_eq_zero_iff.mp hlength.symm
    refine ⟨[], ?_⟩
    have hwarn : q.warn [] = q := by rw [warn, List.append_nil]
    rw [hwarn]
    rfl
  | cons next rest ih =>
    cases contents with
    | nil => cases hlength
    | cons content? contents =>
      have hrest : rest.length = contents.length := Nat.succ.inj hlength
      obtain ⟨warnings, hrun⟩ :=
        ih (q.warn (Draft.fileWarnings next content?)) (d.addFile next content?) hrest
      refine ⟨Draft.fileWarnings next content? ++ warnings, ?_⟩
      have hwarn : q.warn (Draft.fileWarnings next content? ++ warnings) =
          (q.warn (Draft.fileWarnings next content?)).warn warnings := by
        simp only [warn, List.append_assoc]
      have hstep : (q.continueWith d (next :: rest)).step (.read content?) =
          (q.warn (Draft.fileWarnings next content?)).continueWith (d.addFile next content?) rest :=
        continueWith_running (q.warn _) (some (.reading d next rest)) _ rest
      rw [hwarn, List.map_cons, List.zip_cons_cons]
      exact (congrArg (fun q => run q (contents.map .read)) hstep).trans hrun

/-- A scan that is requested while none is under way, and then told all it asks for, ends with its table
and its summary. -/
theorem run_scan {q : ScanQueue} (hrunning : q.running = none) (hwaiting : q.waiting = [])
    (s : FinishedScan) :
    ∃ warnings, q.run (.requested s.root :: s.answers) =
      { visible := s.table, answers := q.answers ++ [s.summary], warnings := warnings } := by
  have hrequest : q.step (.requested s.root) = { q with running := some (.listing s.root) } := by
    simp only [step, hrunning, hwaiting, beginNext, List.nil_append]
  let q' := q.warn (if s.paths?.isNone then [.filesUnlisted s.root] else [])
  have hlisted : (q.step (.requested s.root)).step (.listed s.paths?) =
      q'.continueWith (.start s.root (s.paths?.getD [])) s.order := by
    rw [hrequest]
    exact continueWith_running q' (some (.listing s.root)) _ _
  obtain ⟨warnings, hreads⟩ := run_reads q' (.start s.root (s.paths?.getD [])) s.length_order
  refine ⟨q'.warnings ++ warnings, ?_⟩
  have hrun : q.run (.requested s.root :: s.answers) = (q'.warn warnings).finish s.draft := by
    rw [← hlisted] at hreads
    exact hreads
  rw [hrun, finish, s.table_draft, s.summary_draft, beginNext]
  simp [q', warn, hwaiting]

/-- After some scans one behind the other, the queue is idle, has answered them all and shows the last table. -/
theorem run_historyOf (scans : List FinishedScan) :
    ∃ warnings, ({} : ScanQueue).run (historyOf scans) =
      { visible := lastTable scans, answers := scans.map FinishedScan.summary, warnings := warnings } := by
  induction scans using List.reverseRecOn with
  | nil => exact ⟨[], rfl⟩
  | append_singleton scans s ih =>
    obtain ⟨warnings, hrun⟩ := ih
    have happend : ({} : ScanQueue).run (historyOf (scans ++ [s])) =
        (({} : ScanQueue).run (historyOf scans)).run (.requested s.root :: s.answers) := by
      rw [historyOf, List.flatMap_append, run_append, List.flatMap_singleton]
      rfl
    rw [happend, hrun]
    let q : ScanQueue := ⟨lastTable scans, none, [], scans.map FinishedScan.summary, warnings⟩
    obtain ⟨warnings', hscan⟩ := run_scan (q := q) rfl rfl s
    refine ⟨warnings', ?_⟩
    rw [hscan]
    simp [lastTable, q]

end ScanQueue

/-! ## The same files listed in another way -/

/-- Takes in a file as it reads, or passes over it. -/
def SymbolTable.harvestPath (read : Text → Option Text) (table : SymbolTable) (path : Text) : SymbolTable :=
  match read path with
  | some content => table.harvest path content
  | none => table

namespace FinishedScan

/-- The scan in which each path reads the same as often as it is listed. -/
def ofFiles (root : Text) (paths : List Text) (read : Text → Option Text) : FinishedScan where
  root := root
  paths? := some paths
  contents := (Text.sorted paths).map read
  length_contents := by
    rw [List.length_map]
    exact Text.length_sorted paths

theorem table_ofFiles (root : Text) (paths : List Text) (read : Text → Option Text) :
    (ofFiles root paths read).table =
      (Text.sorted paths).foldl (SymbolTable.harvestPath read) { root := some root } := by
  have hfold (ts : List Text) (table : SymbolTable) :
      table.harvestAll (readableFiles (ts.zip (ts.map read))) =
        ts.foldl (SymbolTable.harvestPath read) table := by
    induction ts generalizing table with
    | nil => rfl
    | cons t ts ih =>
      rw [List.foldl_cons, ← ih]
      cases h : read t <;> simp [readableFiles, SymbolTable.harvestAll, SymbolTable.harvestPath, h]
  exact hfold (Text.sorted paths) _

/-- Only which paths are listed matters, not their arrangement nor how often each is listed. -/
theorem table_ofFiles_congr (root : Text) {paths paths' : List Text} (read : Text → Option Text)
    (h : ∀ path, path ∈ paths ↔ path ∈ paths') :
    (ofFiles root paths read).table = (ofFiles root paths' read).table := by
  -- Once a path has been taken in, the table covers what it reads, and taking it in again does nothing.
  let holds (table : SymbolTable) (path : Text) : Prop :=
    ∀ content, read path = some content → table.Covers path content
  have hsame (table : SymbolTable) (path : Text) (hpath : holds table path) :
      table.harvestPath read path = table := by
    unfold SymbolTable.harvestPath
    split
    · exact SymbolTable.harvest_eq_self (hpath _ ‹_›)
    · rfl
  have hself (table : SymbolTable) (path : Text) : holds (table.harvestPath read path) path := by
    intro content hcontent
    simp only [SymbolTable.harvestPath, hcontent]
    exact table.covers_harvest path content
  have hkeep (table : SymbolTable) (path other : Text) (hpath : holds table path) :
      holds (table.harvestPath read other) path := by
    intro content hcontent
    unfold SymbolTable.harvestPath
    split
    · exact (hpath content hcontent).harvest _ _
    · exact hpath content hcontent
  rw [table_ofFiles, table_ofFiles, ← foldl_eraseDups hsame hself hkeep, Text.eraseDups_sorted_eq h,
    foldl_eraseDups hsame hself hkeep]

end FinishedScan

/-! ## The law of finished scans -/

/-- After any scans, the table shown is the harvest of the files that the last one could read: its functions,
headers and types are those that these files name, each once and functions and types identifiers;
a function's files are in ascending order, and other names have none. The last answer counts
the listed paths, the failed reads and what the table names. Scans that are requested while others are
still under way end alike. And where each path reads the same as often as it is listed, only the set
of the listed paths matters for the table. -/
theorem table_of_last_scan (earlier : List FinishedScan) (s : FinishedScan) :
    let q := ({} : ScanQueue).run (historyOf (earlier ++ [s]))
    let table := q.visible
    q.running = none ∧ q.waiting = [] ∧ table.root = some s.root ∧
    table.IsHarvestOf s.readable ∧
    (∀ name, name ∉ table.functionNames → table.filesDefining name = []) ∧
    (∀ name ∈ table.functionNames, name.isIdentifier) ∧ (∀ type ∈ table.types, type.isIdentifier) ∧
    q.answers.getLast? = some
      { root := s.root
        filesVisited := (s.paths?.getD []).length
        filesSkipped := s.contents.countP (·.isNone)
        functions := table.functionNames.length
        headers := table.headers.length
        types := table.types.length } ∧
    (∀ events : List ScanEvent,
      requestedRoots events = (earlier ++ [s]).map FinishedScan.root →
      ({} : ScanQueue).told events = (earlier ++ [s]).flatMap FinishedScan.answers →
      (({} : ScanQueue).run events).visible = table ∧ (({} : ScanQueue).run events).answers = q.answers) ∧
    ∀ (before : List FinishedScan) (root : Text) (paths paths' : List Text) (read : Text → Option Text),
      (∀ path, path ∈ paths ↔ path ∈ paths') →
      (({} : ScanQueue).run (historyOf (earlier ++ [.ofFiles root paths read]))).visible =
        (({} : ScanQueue).run (historyOf (before ++ [.ofFiles root paths' read]))).visible := by
  have hlast (scans : List FinishedScan) (s : FinishedScan) : lastTable (scans ++ [s]) = s.table := by
    simp [lastTable]
  obtain ⟨warnings, hrun⟩ := ScanQueue.run_historyOf (earlier ++ [s])
  have hharvest : s.table.IsHarvestOf s.readable := SymbolTable.isHarvestOf_harvestAll _ _
  intro q table
  have htable : table = s.table := by
    rw [← hlast earlier s]
    exact congrArg ScanQueue.visible hrun
  have hanswers : q.answers = (earlier ++ [s]).map FinishedScan.summary := congrArg ScanQueue.answers hrun
  rw [hanswers, htable]
  refine ⟨congrArg ScanQueue.running hrun, congrArg ScanQueue.waiting hrun,
    SymbolTable.root_harvestAll _ _, hharvest, fun _ => hharvest.filesDefining_eq_nil,
    fun _ => hharvest.isIdentifier_function, fun _ => hharvest.isIdentifier_type, ?_, ?_, ?_⟩
  · rw [List.map_append, List.map_singleton, List.getLast?_concat]
    simp [FinishedScan.summary, SymbolTable.functionNames]
  · intro events hroots htold
    obtain ⟨scans, hserves, _⟩ := ScanQueue.exists_serves events
    obtain rfl := hserves.scans_eq hroots htold
    rw [hserves.visible_eq, hlast]
    exact ⟨rfl, hserves.answers_eq⟩
  · intro before root paths paths' read hpaths
    obtain ⟨_, hscan⟩ := ScanQueue.run_historyOf (earlier ++ [.ofFiles root paths read])
    obtain ⟨_, hscan'⟩ := ScanQueue.run_historyOf (before ++ [.ofFiles root paths' read])
    rw [hscan, hscan', hlast, hlast]
    exact FinishedScan.table_ofFiles_congr root read hpaths

end CCompletion
