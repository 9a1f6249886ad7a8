import CCompletion.Proofs.Scan.Order
import CCompletion.Proofs.Scan.Way

/-!
# Scans on which calls fail

A call that fails costs the scan what lies behind it and nothing else: where there are no links, the files found are
those of the scan on which nothing fails, without those that a fault is in the way to. Each warning is of one call.
-/

namespace CCompletion

namespace Volume

variable {v : Volume} {names : List Text}

/-- The volume, no call being refused. -/
def healthy (v : Volume) : Volume := { v with faults := [] }

theorem permit_healthy (v : Volume) (call : AccessCall) (names : List Text) : v.healthy.permit call names = .ok () :=
  if_neg List.not_mem_nil

theorem permit_eq (call : AccessCall) (names : List Text) :
    v.permit call names =
      if (⟨call, names⟩ : Fault) ∈ v.faults then .error .refused else v.healthy.permit call names := by
  rw [permit_healthy, permit]

variable {real : Route} {found : List Text} {info : EntryInfo}

/-- What is behind a permit succeeds when the call does not fail and it succeeds where nothing fails. -/
theorem permit_bind_eq_ok_iff {α : Type} {call : AccessCall} {act : Except AccessError α} {a : α} :
    (v.permit call names >>= fun _ => act) = .ok a ↔
      (⟨call, names⟩ : Fault) ∉ v.faults ∧ (v.healthy.permit call names >>= fun _ => act) = .ok a := by
  rw [permit_eq]
  by_cases hfault : (⟨call, names⟩ : Fault) ∈ v.faults
  · rw [if_pos hfault]
    refine iff_of_false (fun h => ?_) fun h => h.1 hfault
    cases h
  · rw [if_neg hfault]
    exact (and_iff_right hfault).symm

theorem realRoute_eq_ok_iff : v.realRoute names = .ok real ↔
    (⟨.resolve, names⟩ : Fault) ∉ v.faults ∧ v.healthy.realRoute names = .ok real :=
  permit_bind_eq_ok_iff

theorem list_eq_ok_iff : v.list names = .ok found ↔
    (⟨.list, names⟩ : Fault) ∉ v.faults ∧ v.healthy.list names = .ok found :=
  permit_bind_eq_ok_iff

theorem inspect_eq_ok_iff : v.inspect names = .ok info ↔
    (⟨.inspect, names⟩ : Fault) ∉ v.faults ∧ v.healthy.inspect names = .ok info :=
  permit_bind_eq_ok_iff

end Volume

namespace Scan

variable {v : Volume} {options : ScanOptions} {root : Route} {p : Plan} {w w' : Walk} {directory route : Route}
  {name : Text} {names : List Text} {task : Task} {log : List Call} {call : Call}

/-! ## Warnings -/

/-- The source file that is looked at is larger than allowed. -/
def Call.IsOversized (p : Plan) : Call → Prop
  | .inspect route => ∃ size kilobytes, p.volume.inspect (p.root ++ route) = .ok (.file size) ∧
      Path.extension (route.getLast?.getD []) ∈ p.options.extensions ∧
      p.options.maxKilobytes = some kilobytes ∧ kilobytes * 1024 < size
  | _ => False

/-- What is warned of when a call is made. -/
def Call.warning? (p : Plan) : Call → Option Warning
  | .resolve route =>
    match p.volume.realRoute (p.root ++ route) with
    | .error _ => some (.directoryUnresolved (p.path route))
    | .ok _ => none
  | .read visit =>
    match p.volume.list (p.root ++ visit.route) with
    | .error _ => some (.directoryUnread (p.path visit.route))
    | .ok _ => none
  | .inspect route =>
    match p.volume.inspect (p.root ++ route) with
    | .error _ => some (.entryUnknown (p.path route))
    | .ok .directory => none
    | .ok (.file size) =>
      if p.isSource (route.getLast?.getD []) then (p.isTooLarge size).map (.fileTooLarge (p.path route)) else none

theorem isSome_isTooLarge_iff {size : Nat} : (p.isTooLarge size).isSome = true ↔
    ∃ kilobytes, p.options.maxKilobytes = some kilobytes ∧ kilobytes * 1024 < size := by
  rw [Plan.isTooLarge]
  cases p.options.maxKilobytes <;> simp

/-- There is a warning just when the call fails or comes by a source file that is too large. -/
theorem isSome_warning?_iff : (call.warning? p).isSome = true ↔ ¬call.Succeeds p ∨ call.IsOversized p := by
  cases call with
  | resolve route =>
    simp only [Call.warning?, Call.Succeeds, Call.IsOversized]
    cases p.volume.realRoute (p.root ++ route) <;> simp
  | read visit =>
    simp only [Call.warning?, Call.Succeeds, Call.IsOversized]
    cases p.volume.list (p.root ++ visit.route) <;> simp
  | inspect route =>
    simp only [Call.warning?, Call.Succeeds, Call.IsOversized]
    cases p.volume.inspect (p.root ++ route) with
    | error e => simp
    | ok info =>
      cases info with
      | directory => simp
      | file size =>
        by_cases hsource : Path.extension (route.getLast?.getD []) ∈ p.options.extensions
        · have hsource' : p.isSource (route.getLast?.getD []) = true := List.contains_iff_mem.mpr hsource
          simp [hsource, hsource', isSome_isTooLarge_iff]
        · have hsource' : ¬p.isSource (route.getLast?.getD []) = true := mt List.contains_iff_mem.mp hsource
          simp [hsource, hsource']

theorem warningsAt_eq : p.warningsAt directory name = ((Call.inspect (directory ++ [name])).warning? p).toList := by
  have hname : (directory ++ [name]).getLast?.getD [] = name := by simp
  rw [Plan.warningsAt, Call.warning?, hname]
  cases p.volume.inspect (p.root ++ (directory ++ [name])) with
  | error e => rfl
  | ok info =>
    cases info with
    | directory => rfl
    | file size => cases p.isSource name <;> rfl

theorem warnings_pass : (w.pass p directory name).warnings =
    w.warnings ++ (p.calls directory w name).filterMap (Call.warning? p) := by
  rw [Plan.calls]
  cases hlooks : p.looksAt directory w name with
  | false =>
    obtain ⟨unaskable, hpass⟩ := pass_of_not_looksAt hlooks
    rw [hpass]
    exact (List.append_nil _).symm
  | true =>
    rw [pass_of_looksAt hlooks, warningsAt_eq, if_pos rfl]
    cases hwarning : (Call.inspect (directory ++ [name])).warning? p <;> simp [hwarning]

/-- A walk warns of its calls one after the other. -/
theorem Ends.warnings_eq (h : Ends p task w log w') : w'.warnings = w.warnings ++ log.filterMap (Call.warning? p) := by
  induction h with
  | unresolved hreal => simp [Walk.warn, Call.warning?, hreal]
  | reentered hreal _ => simp [Call.warning?, hreal]
  | unread hreal _ hlist => simp [Walk.warn, Walk.enter, Call.warning?, hreal, hlist]
  | done => simp
  | listed hreal _ hlist _ ih =>
    rw [ih]
    simp [Walk.enter, Call.warning?, hreal, hlist]
  | passed _ _ ih => rw [ih, warnings_pass, List.filterMap_append, List.append_assoc]
  | @deeper directory name names w w' w'' log log' hname _ _ ih ihrest =>
    -- an entry that is entered is a directory, of which nothing is said
    have hentry : (p.calls directory w name).filterMap (Call.warning? p) = [] := by
      rw [Plan.calls, if_pos hname.looksAt]
      simp [Call.warning?, hname.isDirectory]
    rw [ihrest, ih, List.filterMap_append, List.filterMap_append, hentry, List.nil_append, List.append_assoc]

/-! ## Faults on the way -/

/-- No fault is in the way to a file: the directories that it lies in can be resolved and read, the root among them,
and it can be looked at as they can. -/
def Spares (v : Volume) (root route : Route) : Prop :=
  ∀ i < route.length, (⟨.resolve, root ++ route.take i⟩ : Fault) ∉ v.faults ∧
    (⟨.list, root ++ route.take i⟩ : Fault) ∉ v.faults ∧ (⟨.inspect, root ++ route.take (i + 1)⟩ : Fault) ∉ v.faults

instance (v : Volume) (root route : Route) : Decidable (Spares v root route) :=
  inferInstanceAs (Decidable (∀ i < route.length, _ ∧ _ ∧ _))

theorem spares_concat_iff : Spares v root (directory ++ [name]) ↔ Spares v root directory ∧
    (⟨.resolve, root ++ directory⟩ : Fault) ∉ v.faults ∧ (⟨.list, root ++ directory⟩ : Fault) ∉ v.faults ∧
    (⟨.inspect, root ++ (directory ++ [name])⟩ : Fault) ∉ v.faults := by
  have htake {i : Nat} (hi : i ≤ directory.length) : (directory ++ [name]).take i = directory.take i :=
    List.take_append_of_le_length hi
  have hall : (directory ++ [name]).take (directory.length + 1) = directory ++ [name] :=
    List.take_of_length_le (by simp)
  constructor
  · intro h
    refine ⟨fun i hi => ?_, ?_⟩
    · have hentry := h i (by rw [List.length_append]; omega)
      rwa [htake (by omega), htake (by omega)] at hentry
    · have hlast := h directory.length (by simp)
      rwa [htake (Nat.le_refl _), List.take_length, hall] at hlast
  · rintro ⟨hdirectory, hlast⟩ i hi
    rw [List.length_append, List.length_singleton] at hi
    obtain hi | rfl : i < directory.length ∨ i = directory.length := by omega
    · rw [htake (by omega), htake (by omega)]
      exact hdirectory i hi
    · rwa [htake (Nat.le_refl _), List.take_length, hall]

/-- The plan, no call being refused. -/
def Plan.healthy (p : Plan) : Plan := { p with volume := p.volume.healthy }

theorem admits_iff : p.admits directory name = true ↔ p.healthy.admits directory name = true ∧
    (⟨.inspect, p.root ++ (directory ++ [name])⟩ : Fault) ∉ p.volume.faults := by
  have htakes : p.takes directory name = true ↔ p.healthy.takes directory name = true ∧
      (⟨.inspect, p.root ++ (directory ++ [name])⟩ : Fault) ∉ p.volume.faults := by
    rw [Plan.takes, Plan.takes]
    constructor
    · intro h
      split at h
      · rename_i hinspect
        obtain ⟨hfault, hhealthy⟩ := Volume.inspect_eq_ok_iff.mp hinspect
        have hhealthy' : p.healthy.volume.inspect (p.healthy.root ++ (directory ++ [name])) = _ := hhealthy
        rw [hhealthy']
        exact ⟨h, hfault⟩
      · cases h
    · rintro ⟨h, hfault⟩
      split at h
      · rename_i hinspect
        rw [Volume.inspect_eq_ok_iff.mpr ⟨hfault, hinspect⟩]
        exact h
      · cases h
  have hkeeps : p.healthy.keeps = p.keeps := rfl
  rw [Plan.admits, Plan.admits, Bool.and_eq_true, Bool.and_eq_true, htakes, hkeeps, and_assoc]

/-- With the faults, the directories are read that are read without them and that no fault is in the way to. -/
theorem reads_iff : Reads p directory names ↔ Reads p.healthy directory names ∧ Spares p.volume p.root directory ∧
    (⟨.resolve, p.root ++ directory⟩ : Fault) ∉ p.volume.faults ∧
    (⟨.list, p.root ++ directory⟩ : Fault) ∉ p.volume.faults := by
  constructor
  · intro h
    induction h with
    | root hreal hlist =>
      obtain ⟨hresolve, hreal⟩ := Volume.realRoute_eq_ok_iff.mp hreal
      obtain ⟨hread, hlist⟩ := Volume.list_eq_ok_iff.mp hlist
      rw [List.append_nil]
      exact ⟨.root hreal hlist, nofun, hresolve, hread⟩
    | entry _ hname hkept hinspect hexcluded hreal hlist ih =>
      obtain ⟨hresolve, hreal⟩ := Volume.realRoute_eq_ok_iff.mp hreal
      obtain ⟨hread, hlist⟩ := Volume.list_eq_ok_iff.mp hlist
      obtain ⟨hlook, hinspect⟩ := Volume.inspect_eq_ok_iff.mp hinspect
      obtain ⟨hdirectory, hspares, hresolve', hread'⟩ := ih
      exact ⟨.entry hdirectory hname hkept hinspect hexcluded hreal hlist,
        spares_concat_iff.mpr ⟨hspares, hresolve', hread', hlook⟩, hresolve, hread⟩
  · rintro ⟨h, hspares, hresolve, hread⟩
    induction h with
    | root hreal hlist =>
      rw [List.append_nil] at hresolve hread
      exact .root (Volume.realRoute_eq_ok_iff.mpr ⟨hresolve, hreal⟩) (Volume.list_eq_ok_iff.mpr ⟨hread, hlist⟩)
    | entry _ hname hkept hinspect hexcluded hreal hlist ih =>
      obtain ⟨hspares, hresolve', hread', hlook⟩ := spares_concat_iff.mp hspares
      exact .entry (ih hspares hresolve' hread') hname hkept (Volume.inspect_eq_ok_iff.mpr ⟨hlook, hinspect⟩) hexcluded
        (Volume.realRoute_eq_ok_iff.mpr ⟨hresolve, hreal⟩) (Volume.list_eq_ok_iff.mpr ⟨hread, hlist⟩)

/-- Of the files found without the faults, those are found that no fault is in the way to. -/
theorem IsStraight.found_eq {log' : List Call} (h : IsStraight p log w) (h' : IsStraight p.healthy log' w') :
    w.found = w'.found.filter (Spares p.volume p.root ·) := by
  refine (h.ends.ascending_found h.tree).eq_of_mem_iff ((h'.ends.ascending_found h'.tree).filter _) fun route => ?_
  rw [List.mem_filter, decide_eq_true_iff, h.mem_found_iff, h'.mem_found_iff]
  constructor
  · rintro ⟨directory, names, name, hread, hname, hadmits, rfl⟩
    obtain ⟨hread, hspares, hresolve, hlist⟩ := reads_iff.mp hread
    obtain ⟨hadmits, hinspect⟩ := admits_iff.mp hadmits
    exact ⟨⟨directory, names, name, hread, hname, hadmits, rfl⟩,
      spares_concat_iff.mpr ⟨hspares, hresolve, hlist, hinspect⟩⟩
  · rintro ⟨⟨directory, names, name, hread, hname, hadmits, rfl⟩, hspares⟩
    obtain ⟨hspares, hresolve, hlist, hinspect⟩ := spares_concat_iff.mp hspares
    exact ⟨directory, names, name, reads_iff.mpr ⟨hread, hspares, hresolve, hlist⟩, hname,
      admits_iff.mpr ⟨hadmits, hinspect⟩, rfl⟩

/-! ## Scans -/

/-- Whatever calls fail, a scan through a tree without links returns the files that it would return if none failed,
without those that a fault is in the way to. It warns once of each call that fails and of each source file it comes by
that is too large. -/
theorem sourceFiles_spared (htree : v.top.IsTree) (hlinks : IsLinkFree v root)
    (hrules : options.followsIgnoreFiles = false) (huncapped : options.maxFiles = none) :
    ∃ log w routes, Ends (plan v options root).1 (.directory []) {} log w ∧
      (sourceFiles v.healthy options root).files = .ok routes ∧
      sourceFiles v options root =
        ⟨.ok (routes.filter (Spares v root ·)), log.filterMap (Call.warning? (plan v options root).1)⟩ ∧
      ∀ call ∈ log, (call.warning? (plan v options root).1).isSome = true ↔
        ¬call.Succeeds (plan v options root).1 ∨ call.IsOversized (plan v options root).1 := by
  let p : Plan := ⟨v, root, options, none⟩
  have hp : p.IsPlain := ⟨rfl, huncapped⟩
  have hp' : p.healthy.IsPlain := ⟨rfl, huncapped⟩
  obtain ⟨log, hends⟩ := exists_ends p (Nat.le_refl _)
  obtain ⟨log', hends'⟩ := exists_ends p.healthy (Nat.le_refl _)
  have hfound := IsStraight.found_eq ⟨hp.isOpen, htree, hlinks, hends⟩ ⟨hp'.isOpen, htree, hlinks, hends'⟩
  have hwarnings := hends.warnings_eq
  rw [plan_eq v root hrules]
  refine ⟨log, _, _, hends, congrArg Outcome.files (sourceFiles_eq v.healthy root hrules huncapped rfl), ?_,
    fun call _ => isSome_warning?_iff⟩
  rw [sourceFiles_eq v root hrules huncapped rfl]
  exact congrArg₂ Outcome.mk (congrArg Except.ok hfound) hwarnings

/-- A file that cannot be looked at, one that is too large where nothing may be larger than empty, and a directory that
cannot be read. -/
def faulty : Volume where
  top := .directory [("a.c", .file []), ("b.c", .file []), ("c.h", .file [0]), ("d", .directory [("e.c", .file [])])]
  faults := [⟨.inspect, ["a.c"]⟩, ⟨.list, ["d"]⟩]

theorem isLinkFree_faulty : IsLinkFree faulty [] := by
  intro place hplace
  obtain rfl : ([], faulty.top) = place := Except.ok.inj hplace
  decide

theorem sourceFiles_spared_faulty :
    (sourceFiles faulty.healthy { maxKilobytes := some 0 } []).files = .ok [["a.c"], ["b.c"], ["d", "e.c"]] ∧
    sourceFiles faulty { maxKilobytes := some 0 } [] = ⟨.ok [["b.c"]], [.entryUnknown (Text.ofString "/a.c"),
      .fileTooLarge (Text.ofString "/c.h") 0, .directoryUnread (Text.ofString "/d")]⟩ := by
  obtain ⟨log, w, routes, hends, hroutes, hscan, -⟩ :=
    @sourceFiles_spared faulty { maxKilobytes := some 0 } [] (by decide) isLinkFree_faulty rfl rfl
  have hhealthy : (sourceFiles faulty.healthy { maxKilobytes := some 0 } []).files =
      .ok [["a.c"], ["b.c"], ["d", "e.c"]] := by cbv
  have hwarnings : (sourceFiles faulty { maxKilobytes := some 0 } []).warnings = [.entryUnknown (Text.ofString "/a.c"),
      .fileTooLarge (Text.ofString "/c.h") 0, .directoryUnread (Text.ofString "/d")] := by cbv
  refine ⟨hhealthy, ?_⟩
  obtain rfl := Except.ok.inj (hroutes.symm.trans hhealthy)
  rw [hscan] at hwarnings ⊢
  exact congrArg₂ Outcome.mk (congrArg Except.ok (by decide)) hwarnings

end Scan
end CCompletion
