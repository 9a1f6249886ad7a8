import CCompletion.Proofs.Index.Contents
import CCompletion.Proofs.Json.Object
import CCompletion.Proofs.Service.Document
import CCompletion.Proofs.Service.Url

/-!
# The functions of a project, seen from several sides

The functions of a table can be looked up one by one, read off a snapshot and asked for by requests. All views show the
same functions with the same files, but for one name that no snapshot holds.
-/

namespace CCompletion

variable {table : SymbolTable} {name : Text} {files : List Text} {sources : List (Text × Text)}

/-! ## Snapshots -/

namespace SymbolTable

theorem IsHarvestOf.filesDefining_ne_nil_iff (h : table.IsHarvestOf sources) :
    table.filesDefining name ≠ [] ↔ name ∈ table.functionNames := by
  constructor
  · intro hne
    by_contra hname
    exact hne (h.filesDefining_eq_nil hname)
  · intro hname
    obtain ⟨⟨path, content⟩, hsource, hcontent⟩ := (h.mem_functionNames name).mp hname
    have hpath : path ∈ table.filesDefining name := (h.mem_filesDefining name path).mpr ⟨content, hsource, hcontent⟩
    exact List.ne_nil_of_mem hpath

theorem mem_functions_snapshot : ⟨name, files⟩ ∈ table.snapshot.functions ↔
    (name ∈ table.functionNames ∧ name ≠ Snapshot.unlistable) ∧ files = table.filesDefining name := by
  show _ ∈ ((Text.sorted table.functionNames).filter (· ≠ Snapshot.unlistable)).map _ ↔ _
  simp only [List.mem_map, List.mem_filter, Text.mem_sorted, decide_eq_true_eq, IndexedFunction.mk.injEq]
  constructor
  · rintro ⟨other, hother, rfl, rfl⟩
    exact ⟨hother, rfl⟩
  · rintro ⟨hname, rfl⟩
    exact ⟨name, hname, rfl, rfl⟩

theorem map_name_snapshot (table : SymbolTable) :
    table.snapshot.functions.map (·.name) = (Text.sorted table.functionNames).filter (· ≠ Snapshot.unlistable) := by
  show (List.map _ _).map _ = _
  rw [List.map_map]
  exact List.map_id _

/-- The names of a snapshot come in ascending order. -/
theorem Distinct.ascending_snapshot (h : table.Distinct) :
    Text.Ascending (table.snapshot.functions.map (·.name)) := by
  rw [map_name_snapshot]
  exact (Text.ascending_sorted h.functionNames).filter _

/-- A snapshot is complete if the name that it cannot hold is none of the table's. -/
theorem map_name_snapshot_eq_iff : table.snapshot.functions.map (·.name) = Text.sorted table.functionNames ↔
    Snapshot.unlistable ∉ table.functionNames := by
  rw [map_name_snapshot, List.filter_eq_self]
  simp only [Text.mem_sorted, decide_eq_true_eq]
  constructor
  · exact fun h hmem => h _ hmem rfl
  · rintro h other hother rfl
    exact h hother

theorem Distinct.length_snapshot (h : table.Distinct) : table.functionNames.length =
    table.snapshot.functions.length + if Snapshot.unlistable ∈ table.functionNames then 1 else 0 := by
  have hlength := congrArg List.length (map_name_snapshot table)
  rw [List.length_map] at hlength
  by_cases hmem : Snapshot.unlistable ∈ table.functionNames
  · -- no name comes twice, so the filter takes away just this one
    have hnodup : (Text.sorted table.functionNames).Nodup := (Text.ascending_sorted h.functionNames).nodup
    have herase : (Text.sorted table.functionNames).filter (· ≠ Snapshot.unlistable) =
        (Text.sorted table.functionNames).erase Snapshot.unlistable := by
      rw [hnodup.erase_eq_filter]
      exact List.filter_congr fun other _ => by rw [Bool.eq_iff_iff, decide_eq_true_iff, bne_iff_ne]
    have hpos : 0 < table.functionNames.length := List.length_pos_of_mem hmem
    rw [herase, List.length_erase_of_mem (Text.mem_sorted.mpr hmem), Text.length_sorted] at hlength
    rw [if_pos hmem]
    omega
  · rw [← map_name_snapshot, map_name_snapshot_eq_iff.mpr hmem, Text.length_sorted] at hlength
    rw [if_neg hmem]
    omega

end SymbolTable

/-! ## Requests -/

namespace Service

variable {s : Service}

/-- The whole index is asked for, and names the function with these files. -/
def Lists (s : Service) (name : Text) (files : List Text) : Prop :=
  ∃ body entries, (s.answer ⟨"GET", "/index", none⟩).2.reply = ⟨200, body⟩ ∧
    body.field? "functions" = some (.object entries) ∧ Json.lookup? name entries = some (Json.ofTexts files)

/-- The files of the function are asked for, and are these. -/
def Finds (s : Service) (name : Text) (files : List Text) : Prop :=
  (s.answer ⟨"GET", Text.ofString "/symbols?name=" ++ name, none⟩).2.reply =
    ⟨200, .object [("name", .string name), ("files", Json.ofTexts files)]⟩

theorem answer_index (s : Service) : (s.answer ⟨"GET", "/index", none⟩).2.reply = ⟨200, s.table.snapshot.toJson⟩ := by
  have hcall : Call.ofRequest ⟨"GET", "/index", none⟩ = .ok (.ask .index) := by
    have hurl : Url.ofTarget "/index" = ⟨"/index", none⟩ := by cbv
    have hvalue : Request.value ⟨"GET", "/index", none⟩ = .ok .null := rfl
    refine ofRequest_eq hvalue ?_
    rw [route?, if_pos (by decide), hurl, if_neg (by decide), if_pos rfl]
  rw [answer, hcall]
  rfl

theorem answer_symbols (s : Service) (hname : name.isIdentifier = true) :
    (s.answer ⟨"GET", Text.ofString "/symbols?name=" ++ name, none⟩).2.reply =
      ⟨200, filesJson name (s.table.filesDefining name)⟩ := by
  have hkey : Text.IsRun "name" := Text.isRun_of_isIdentifier (by decide)
  have hurl : Url.ofTarget (Text.ofString "/symbols?name=" ++ name) =
      ⟨"/symbols", some (Text.ofString "name" ++ unit '=' :: name)⟩ := by
    show Url.ofTarget (Text.ofString "/symbols" ++ unit '?' :: (Text.ofString "name" ++ unit '=' :: name)) = _
    apply Url.ofTarget_query
    · decide
    · decide
    · cbv
  have hvalues := Url.values_field hkey (Text.isRun_of_isIdentifier hname) "/symbols"
  have hcall : Call.ofRequest ⟨"GET", Text.ofString "/symbols?name=" ++ name, none⟩ = .ok (.ask (.symbols name)) := by
    have hquery : (Request.mk "GET" (Text.ofString "/symbols?name=" ++ name) none).isQuery = true := rfl
    have hvalue : Request.value ⟨"GET", Text.ofString "/symbols?name=" ++ name, none⟩ = .ok .null := rfl
    refine ofRequest_eq hvalue ?_
    rw [route?, if_pos hquery, hurl, if_pos rfl, symbolsCall, hvalues]
    show some ((identifierAt "querystring/name" name).map _) = _
    rw [identifierAt, if_pos hname]
    rfl
  rw [answer, hcall]
  rfl

theorem finds_iff (hname : name.isIdentifier = true) : s.Finds name files ↔ files = s.table.filesDefining name := by
  rw [Finds, answer_symbols s hname, filesJson]
  simp only [Reply.mk.injEq, Json.object.injEq, List.cons.injEq, Prod.mk.injEq, true_and, and_true,
    Json.ofTexts_inj]
  exact eq_comm

theorem lists_iff (h : s.table.Distinct) : s.Lists name files ↔ ⟨name, files⟩ ∈ s.table.snapshot.functions := by
  let entries := s.table.snapshot.functions.map fun f => (f.name, Json.ofTexts f.files)
  have hentries : s.table.snapshot.toJson.field? "functions" = some (.object entries) := rfl
  have hdistinct : (entries.map (·.1)).Nodup := by
    have hnames := h.ascending_snapshot.nodup
    rwa [List.map_map]
  have hlookup : Json.lookup? name entries = some (Json.ofTexts files) ↔
      ⟨name, files⟩ ∈ s.table.snapshot.functions := by
    rw [Json.lookup?_eq_some_iff hdistinct, List.mem_map]
    constructor
    · rintro ⟨f, hf, heq⟩
      obtain ⟨rfl, hfiles⟩ := Prod.mk.inj heq
      rwa [← Json.ofTexts_inj.mp hfiles]
    · exact fun hmem => ⟨_, hmem, rfl⟩
  rw [Lists, answer_index, ← hlookup]
  constructor
  · rintro ⟨body, others, hreply, hothers, hfound⟩
    obtain rfl := (Reply.mk.inj hreply).2
    obtain rfl := Json.object.inj (Option.some.inj (hentries.symm.trans hothers))
    exact hfound
  · exact fun hfound => ⟨_, entries, rfl, hentries, hfound⟩

end Service

/-! ## The views -/

/-- All views of the functions that a queue shows agree. -/
structure ViewsAgree (q : ScanQueue) (s : Service) : Prop where
  names : q.visible.snapshot.functions.map (·.name) = Text.sorted q.visible.functionNames
  ascending : Text.Ascending (q.visible.snapshot.functions.map (·.name))
  files : ∀ f ∈ q.visible.snapshot.functions, f.files = q.visible.filesDefining f.name
  requests : ∀ name files, s.Lists name files ↔ name.isIdentifier = true ∧ s.Finds name files ∧ files ≠ []
  count : ∀ summary ∈ q.answers.getLast?, summary.functions = q.visible.snapshot.functions.length

namespace ScanQueue

theorem exists_isHarvestOf (events : List ScanEvent) :
    ∃ sources, (({} : ScanQueue).run events).visible.IsHarvestOf sources := by
  obtain ⟨scans, hserves, _⟩ := exists_serves events
  rw [hserves.visible_eq, lastTable]
  cases scans.getLast? with
  | none => exact ⟨[], SymbolTable.isHarvestOf_harvestAll none []⟩
  | some s => exact ⟨s.readable, SymbolTable.isHarvestOf_harvestAll _ _⟩

/-- The last answer counts the functions that are shown now. -/
theorem functions_of_last_answer {events : List ScanEvent} {summary : ScanSummary}
    (h : summary ∈ (({} : ScanQueue).run events).answers.getLast?) :
    summary.functions = (({} : ScanQueue).run events).visible.functionNames.length := by
  obtain ⟨scans, hserves, _⟩ := exists_serves events
  rw [hserves.answers_eq, List.getLast?_map, Option.mem_map] at h
  obtain ⟨s, hs, rfl⟩ := h
  have htable : lastTable scans = s.table := by
    rw [lastTable, Option.mem_def.mp hs]
    rfl
  rw [hserves.visible_eq, htable, SymbolTable.functionNames, List.length_map]
  rfl

end ScanQueue

namespace Service

variable {s : Service}

/-- The requests agree on each name that can be listed. -/
theorem lists_iff_finds (h : s.table.IsHarvestOf sources)
    (hname : name ∈ s.table.functionNames → name ≠ Snapshot.unlistable) :
    s.Lists name files ↔ name.isIdentifier = true ∧ s.Finds name files ∧ files ≠ [] := by
  rw [lists_iff h.distinct, SymbolTable.mem_functions_snapshot]
  constructor
  · rintro ⟨⟨hmem, _⟩, rfl⟩
    have hidentifier := h.isIdentifier_function hmem
    exact ⟨hidentifier, (finds_iff hidentifier).mpr rfl, h.filesDefining_ne_nil_iff.mpr hmem⟩
  · rintro ⟨hidentifier, hfinds, hne⟩
    obtain rfl := (finds_iff hidentifier).mp hfinds
    have hmem : name ∈ s.table.functionNames := h.filesDefining_ne_nil_iff.mp hne
    exact ⟨⟨hmem, hname hmem⟩, rfl⟩

end Service

theorem viewsAgree_iff (events : List ScanEvent) (service : Service) :
    let q := ({} : ScanQueue).run events
    ViewsAgree q { service with table := q.visible } ↔ Snapshot.unlistable ∉ q.visible.functionNames := by
  intro q
  obtain ⟨sources, hharvest⟩ := ScanQueue.exists_isHarvestOf events
  constructor
  · exact fun h => SymbolTable.map_name_snapshot_eq_iff.mp h.names
  · intro hnone
    refine ⟨SymbolTable.map_name_snapshot_eq_iff.mpr hnone, hharvest.distinct.ascending_snapshot, fun f hf => ?_,
      fun name files => ?_, fun summary hsummary => ?_⟩
    · exact (SymbolTable.mem_functions_snapshot.mp hf).2
    · apply Service.lists_iff_finds hharvest
      rintro hmem rfl
      exact hnone hmem
    · have hcount := ScanQueue.functions_of_last_answer hsummary
      rwa [hharvest.distinct.length_snapshot, if_neg hnone, Nat.add_zero] at hcount

/-- Whatever scans have been through, the snapshot has the names of the table in ascending order, each with its files,
but leaves out the one name that it cannot hold. So does the request for the index, while the request for a single
function finds the files of every name, and the last answer counts all of them. The views agree, then, just when no
function of the project has that name. -/
theorem views_of_functions (events : List ScanEvent) (service : Service) :
    let q := ({} : ScanQueue).run events
    let s := { service with table := q.visible }
    Text.Ascending (q.visible.snapshot.functions.map (·.name)) ∧
    (∀ name files, ⟨name, files⟩ ∈ q.visible.snapshot.functions ↔
      (name ∈ q.visible.functionNames ∧ name ≠ Snapshot.unlistable) ∧ files = q.visible.filesDefining name) ∧
    (∀ name files, s.Lists name files ↔ ⟨name, files⟩ ∈ q.visible.snapshot.functions) ∧
    (∀ name, name.isIdentifier = true → ∀ files, s.Finds name files ↔ files = q.visible.filesDefining name) ∧
    (∀ name ≠ Snapshot.unlistable, ∀ files,
      s.Lists name files ↔ name.isIdentifier = true ∧ s.Finds name files ∧ files ≠ []) ∧
    (∀ summary ∈ q.answers.getLast?, summary.functions = q.visible.snapshot.functions.length +
      if Snapshot.unlistable ∈ q.visible.functionNames then 1 else 0) ∧
    (ViewsAgree q s ↔ Snapshot.unlistable ∉ q.visible.functionNames) := by
  intro q s
  obtain ⟨sources, hharvest⟩ := ScanQueue.exists_isHarvestOf events
  refine ⟨hharvest.distinct.ascending_snapshot, fun name files => ?_, fun name files => ?_, fun name hname files => ?_,
    fun name hname files => ?_, fun summary hsummary => ?_, viewsAgree_iff events service⟩
  · exact SymbolTable.mem_functions_snapshot
  · exact Service.lists_iff hharvest.distinct
  · exact Service.finds_iff hname
  · exact Service.lists_iff_finds hharvest fun _ => hname
  · rw [ScanQueue.functions_of_last_answer hsummary]
    exact hharvest.distinct.length_snapshot

/-- A header that declares a function of that name. -/
theorem not_viewsAgree_header :
    let events : List ScanEvent :=
      [.requested "/p", .listed (some ["/p/a.h"]), .read (some (Text.ofString "int __proto__(void);"))]
    let q := ({} : ScanQueue).run events
    ¬ViewsAgree q ⟨[], ⟨fun _ => (none, []), fun _ => none⟩, {}, q.visible⟩ := by
  intro events q hagree
  have hnone := (viewsAgree_iff events ⟨[], ⟨fun _ => (none, []), fun _ => none⟩, {}, {}⟩).mp hagree
  have hmem : Snapshot.unlistable ∈ (({} : ScanQueue).run events).visible.functionNames := by decide +kernel
  exact hnone hmem

end CCompletion
