import CCompletion.Proofs.Scan.Way

/-!
# Other names of a directory

The rules know a directory by the names that the walk takes to it, while the walk enters it once, by whatever names it
comes first. So a file to which there is a way that the rules keep can be lost: just where a directory on that way was
entered by other names, under which the next step is ignored.
-/

namespace CCompletion.Scan

variable {v : Volume} {options : ScanOptions} {root : Route} {p : Plan} {w : Walk} {directory real route : Route}
  {name : Text} {names : List Text} {visit : Visit} {log : List Call} {entries : List (Text × Node)}

/-! ## Ways -/

/-- A way from the root to a real directory, all of its names being kept by the rules and none being excluded. -/
inductive Way (p : Plan) : Route → Route → Prop
  | root {real : Route} {entries : List (Text × Node)}
      (hroot : p.volume.locate p.root = .ok (real, .directory entries)) : Way p [] real
  | entry {directory real below : Route} {entries entries' : List (Text × Node)} {name : Text}
      (hdirectory : Way p directory real) (hat : p.volume.top.at? real = some (.directory entries))
      (hmem : name ∈ entries.map (·.1)) (hkept : p.keeps (directory ++ [name]) = true)
      (hexcluded : name ∉ p.options.excluded)
      (hbelow : p.volume.locate (real ++ [name]) = .ok (below, .directory entries')) : Way p (directory ++ [name]) below

/-- A directory that is read lies at the end of a way. -/
theorem Reads.exists_way (h : Reads p directory names) (htree : p.volume.top.IsTree) :
    ∃ real entries, p.volume.locate (p.root ++ directory) = .ok (real, .directory entries) ∧ Way p directory real := by
  induction h with
  | root hreal hlist =>
    obtain ⟨real, entries, hlocate, -⟩ := Volume.exists_locate_of_list hlist
    rw [List.append_nil]
    exact ⟨real, entries, hlocate, .root hlocate⟩
  | entry hdirectory hname hkept hinspect hexcluded hreal hlist ih =>
    obtain ⟨real, entries, hlocate, hway⟩ := ih
    obtain ⟨real', entries', hlocate', rfl⟩ := Volume.exists_locate_of_list hdirectory.list
    obtain ⟨rfl, hentries⟩ := Prod.mk.inj (Except.ok.inj (hlocate.symm.trans hlocate'))
    obtain rfl := Node.directory.inj hentries
    obtain ⟨below, entries', hbelow, -⟩ := Volume.exists_locate_of_list hlist
    have hnext := hbelow
    rw [← List.append_assoc] at hnext
    exact ⟨below, entries', hbelow,
      .entry hway (Volume.at?_of_locate hlocate) hname hkept hexcluded (Volume.locate_real htree hlocate hnext)⟩

/-- On the way to a route some directory was entered by other names, under which the next step is ignored. -/
def Diverted (p : Plan) (log : List Call) (route : Route) : Prop :=
  ∃ visit ∈ visits log, ∃ before next, before ++ [next] <+: route ∧ Way p before visit.real ∧
    Way p visit.route visit.real ∧ visit.route ≠ before ∧ p.keeps (visit.route ++ [next]) = false

theorem Diverted.concat (h : Diverted p log directory) (name : Text) : Diverted p log (directory ++ [name]) := by
  obtain ⟨visit, hvisit, before, next, hstart, hrest⟩ := h
  exact ⟨visit, hvisit, before, next, hstart.trans (List.prefix_append _ _), hrest⟩

/-! ## Whole walks -/

/-- A whole walk, whatever its rules are, on which no call failed. -/
structure IsThorough (p : Plan) (log : List Call) (w : Walk) : Prop where
  plan : p.IsOpen
  tree : p.volume.top.IsTree
  ends : Ends p (.directory []) {} log w
  succeeds : ∀ call ∈ log, call.Succeeds p

theorem read_mem_of_mem_visits (h : visit ∈ visits log) : .read visit ∈ log := by
  obtain ⟨call, hcall, hvisit⟩ := List.mem_filterMap.mp h
  cases call with
  | read other => rwa [← Option.some.inj hvisit]
  | resolve => cases hvisit
  | inspect => cases hvisit

namespace IsThorough

variable (h : IsThorough p log w)

include h

theorem exists_entries (hvisit : visit ∈ visits log) : ∃ entries,
    p.volume.locate (p.root ++ visit.route) = .ok (visit.real, .directory entries) ∧
    p.volume.list (p.root ++ visit.route) = .ok (entries.map (·.1)) ∧ Way p visit.route visit.real ∧
    ∀ name ∈ entries.map (·.1), Attended p log w visit.route name := by
  have hsound := h.ends.isSound h.tree (Task.isReady_root p).reached visit hvisit
  obtain ⟨names, hlist⟩ := h.succeeds _ (read_mem_of_mem_visits hvisit)
  obtain ⟨entries, hlocate, rfl⟩ := Volume.locate_of_list hsound.real hlist
  have hread := h.ends.reads h.plan rfl (.start p) (Task.isOnWay_root p) visit hvisit _ hlist
  obtain ⟨real, entries', hlocate', hway⟩ := hread.exists_way h.tree
  obtain ⟨hreal, -⟩ := Prod.mk.inj (Except.ok.inj (hlocate.symm.trans hlocate'))
  rw [← hreal] at hway
  have hattended := (h.ends.attended h.plan rfl (.start p)).2 visit hvisit _ hlist
  exact ⟨entries, hlocate, hlist, hway, hattended⟩

/-- A directory that was met is one that was entered. -/
theorem exists_visit_of_met {place : Volume.Place} (hmet : Met p log w route)
    (hlocate : p.volume.locate (p.root ++ route) = .ok place) : ∃ visit ∈ visits log, visit.real = place.1 := by
  obtain ⟨real, hreal⟩ := h.succeeds _ hmet.1
  obtain ⟨node, hnode⟩ := Volume.exists_locate_of_realRoute hreal
  obtain rfl := Except.ok.inj (hlocate.symm.trans hnode)
  have hentered := hmet.2 real hreal
  rw [h.ends.entered_eq, List.append_nil, List.mem_reverse, List.mem_map] at hentered
  exact hentered

/-- Under the names of a visit an entry leads where it leads from the real directory. -/
theorem exists_info
    (hlocate : p.volume.locate (p.root ++ visit.route) = .ok (visit.real, .directory entries))
    (hlooked : .inspect (visit.route ++ [name]) ∈ log) {place : Volume.Place}
    (hplace : p.volume.locate (visit.real ++ [name]) = .ok place) : ∃ info,
    p.volume.inspect (p.root ++ (visit.route ++ [name])) = .ok info ∧
    p.volume.locate (p.root ++ (visit.route ++ [name])) = .ok place := by
  obtain ⟨info, hinspect⟩ := h.succeeds _ hlooked
  have hsame {node : Node} {real : Route}
      (hnode : p.volume.locate (p.root ++ (visit.route ++ [name])) = .ok (real, node)) :
      p.volume.locate (p.root ++ (visit.route ++ [name])) = .ok place := by
    have hnext := hnode
    rw [← List.append_assoc] at hnext
    rw [hnode, ← hplace, Volume.locate_real h.tree hlocate hnext]
  obtain ⟨real, ⟨_, hnode, _⟩ | ⟨_, hnode, _⟩⟩ := Volume.exists_locate_of_inspect hinspect
  · exact ⟨info, hinspect, hsame hnode⟩
  · exact ⟨info, hinspect, hsame hnode⟩

/-- A step that is kept on some way is kept under the names by which the directory was entered, or the way is
diverted there. -/
theorem keeps_or_diverted (hvisit : visit ∈ visits log) (hway : Way p directory visit.real)
    (hkept : p.keeps (directory ++ [name]) = true) :
    p.keeps (visit.route ++ [name]) = true ∨ Diverted p log (directory ++ [name]) := by
  obtain ⟨_, _, _, hway', _⟩ := h.exists_entries hvisit
  cases hkept' : p.keeps (visit.route ++ [name]) with
  | true => exact .inl rfl
  | false =>
    refine .inr ⟨visit, hvisit, directory, name, List.prefix_rfl, hway, hway', ?_, hkept'⟩
    rintro hsame
    rw [hsame, hkept] at hkept'
    cases hkept'

/-- At the end of a way stands a directory that was entered, or the way is diverted. -/
theorem exists_visit_or_diverted (hway : Way p directory real) :
    (∃ visit ∈ visits log, visit.real = real) ∨ Diverted p log directory := by
  induction hway with
  | root hroot =>
    have hmet := (h.ends.attended h.plan rfl (.start p)).1
    rw [← List.append_nil p.root] at hroot
    exact .inl (h.exists_visit_of_met hmet hroot)
  | @entry directory real below entries entries' name hdirectory hat hmem hkept hexcluded hbelow ih =>
    obtain ⟨visit, hvisit, rfl⟩ | hdiverted := ih
    · obtain hkept' | hdiverted := h.keeps_or_diverted hvisit hdirectory hkept
      · -- the walk has looked at the entry under the names of the visit, which lead to the same place
        obtain ⟨entries₁, hlocate, -, -, hattended⟩ := h.exists_entries hvisit
        obtain rfl := Node.directory.inj (Option.some.inj (hat.symm.trans (Volume.at?_of_locate hlocate)))
        obtain ⟨hlooked, hmet⟩ := hattended name hmem hkept'
        obtain ⟨info, hinspect, hplace⟩ := h.exists_info hlocate hlooked hbelow
        have hdirectory := Volume.inspect_eq_directory hinspect hplace
        exact .inl (h.exists_visit_of_met (hmet hdirectory hexcluded) hplace)
      · exact .inr hdiverted
    · exact .inr (hdiverted.concat name)

theorem mem_found_iff : route ∈ w.found ↔ ∃ visit ∈ visits log, ∃ name,
    IsSource p.volume p.options visit.real name ∧ p.keeps route = true ∧ route = visit.route ++ [name] := by
  rw [h.ends.mem_found_iff h.plan rfl (.start p)]
  constructor
  · rintro (hnone | hnone | ⟨visit, hvisit, names, name, hlist, hname, hadmits, rfl⟩)
    · cases hnone
    · cases hnone
    · obtain ⟨entries, hlocate, hlist', -, hattended⟩ := h.exists_entries hvisit
      obtain rfl := Except.ok.inj (hlist.symm.trans hlist')
      obtain ⟨hkept, htakes⟩ := Bool.and_eq_true_iff.mp hadmits
      obtain ⟨info, hinspect⟩ := h.succeeds _ (hattended name hname hkept).1
      exact ⟨visit, hvisit, name, (takes_iff h.tree hlocate hname hinspect).mp htakes, hkept, rfl⟩
  · rintro ⟨visit, hvisit, name, hsource, hkept, rfl⟩
    obtain ⟨entries, hlocate, hlist, -, hattended⟩ := h.exists_entries hvisit
    obtain ⟨entries', hat, hname⟩ := hsource.listed
    obtain rfl := Node.directory.inj (Option.some.inj (hat.symm.trans (Volume.at?_of_locate hlocate)))
    obtain ⟨info, hinspect⟩ := h.succeeds _ (hattended name hname hkept).1
    have htakes := (takes_iff h.tree hlocate hname hinspect).mpr hsource
    exact .inr (.inr ⟨visit, hvisit, _, name, hlist, hname, Bool.and_eq_true_iff.mpr ⟨hkept, htakes⟩, rfl⟩)

/-- A source file to which there is a way that the rules keep is found, or the way is diverted. -/
theorem exists_found_or_diverted (hway : Way p directory real) (hsource : IsSource p.volume p.options real name)
    (hkept : p.keeps (directory ++ [name]) = true) :
    (∃ route ∈ w.found, LeadsTo p.volume p.root route real name) ∨ Diverted p log (directory ++ [name]) := by
  obtain ⟨visit, hvisit, rfl⟩ | hdiverted := h.exists_visit_or_diverted hway
  · obtain hkept' | hdiverted := h.keeps_or_diverted hvisit hway hkept
    · have hsound := h.ends.isSound h.tree (Task.isReady_root p).reached visit hvisit
      exact .inl ⟨_, h.mem_found_iff.mpr ⟨visit, hvisit, name, hsource, hkept', rfl⟩, visit.route, rfl, hsound.real⟩
    · exact .inr hdiverted
  · exact .inr (hdiverted.concat name)

end IsThorough

/-! ## Scans -/

/-- The rules judge the entries of a directory alike under all of its names. -/
def JudgesAlike (p : Plan) : Prop :=
  ∀ route route' real, Way p route real → Way p route' real →
    ∀ name, p.keeps (route ++ [name]) = p.keeps (route' ++ [name])

theorem JudgesAlike.not_diverted (h : JudgesAlike p)
    (hkept : ∀ start, start <+: route → start ≠ [] → p.keeps start = true) : ¬Diverted p log route := by
  rintro ⟨visit, -, before, next, hstart, hway, hway', -, hignored⟩
  rw [h _ _ _ hway' hway next, hkept _ hstart (by simp)] at hignored
  cases hignored

theorem Way.keeps (h : Way p directory real) : ∀ start, start <+: directory → start ≠ [] → p.keeps start = true := by
  induction h with
  | root => exact fun start hstart hne => absurd (List.prefix_nil.mp hstart) hne
  | entry _ _ _ hkept _ _ ih =>
    intro start hstart hne
    obtain rfl | hstart := List.prefix_concat_iff.mp hstart
    · exact hkept
    · exact ih start hstart hne

/-- A scan that follows ignore files, and on which no call fails, finds a source file to which there is a way that the
rules keep, unless a directory on that way was entered by other names, under which the next step is ignored. So it
loses nothing where the rules judge the entries of each directory alike under all of its names. It enters each
directory once, and finds just the source files that are kept under the names by which it entered. -/
theorem sourceFiles_ways (htree : v.top.IsTree) (hfollows : options.followsIgnoreFiles = true)
    (huncapped : options.maxFiles = none)
    (haskable : ∀ names, v.list root = .ok names → ∀ name ∈ names, Ignore.isUnaskable [name] = false)
    (hcalls : ∀ log w, Ends (plan v options root).1 (.directory []) {} log w →
      ∀ call ∈ log, call.Succeeds (plan v options root).1) :
    let p : Plan := ⟨v, root, options, some (Ignore.load v options.excluded root).rules⟩
    ∃ log w, Ends p (.directory []) {} log w ∧ (sourceFiles v options root).files = .ok w.found ∧
      ((visits log).map (·.real)).Nodup ∧
      (∀ route, route ∈ w.found ↔ ∃ visit ∈ visits log, ∃ name,
        IsSource v options visit.real name ∧ p.keeps route = true ∧ route = visit.route ++ [name]) ∧
      ∀ directory real name, Way p directory real → IsSource v options real name →
        p.keeps (directory ++ [name]) = true →
        ((∃ route ∈ w.found, LeadsTo v root route real name) ∨ Diverted p log (directory ++ [name])) ∧
        (JudgesAlike p → ∃ route ∈ w.found, LeadsTo v root route real name) := by
  intro p
  have hplan : (plan v options root).1 = p := plan_of_follows v root hfollows
  obtain ⟨w, log, hends⟩ : ∃ w log, Ends p (.directory []) {} log w := ⟨_, exists_ends p (Nat.le_refl _)⟩
  rw [hplan] at hcalls
  have hthorough : IsThorough p log w := ⟨⟨huncapped, fun _ => haskable⟩, htree, hends, hcalls _ _ hends⟩
  have hasked : w.unaskable = none := hends.unaskable_of_isOpen hthorough.plan rfl (.start p)
  have hfiles : (sourceFiles v options root).files = .ok w.found := files_of_ends (hplan ▸ hends) hasked
  refine ⟨log, w, hends, hfiles, hends.nodup_reals, fun route => hthorough.mem_found_iff, ?_⟩
  intro directory real name hway hsource hkept
  have hfound := hthorough.exists_found_or_diverted hway hsource hkept
  refine ⟨hfound, fun halike => hfound.resolve_right (halike.not_diverted fun start hstart hne => ?_)⟩
  obtain rfl | hstart := List.prefix_concat_iff.mp hstart
  · exact hkept
  · exact hway.keeps start hstart hne

/-- A link is a second name for a directory, and all in it is ignored under that name. -/
def renamed : Volume where
  top := .directory [(".gitignore", .file (Text.toBytes "current/")), ("current", .link "releases"),
    ("releases", .directory [("a.c", .file [])])]

def renamedRules : List Ignore.Rule :=
  [⟨false, .anyLevel, (Text.ofString "current").map fun u => Ignore.Piece.one (.this u), .directory⟩]

theorem load_renamed : Ignore.load renamed [".git", "node_modules"] [] = ⟨renamedRules, true⟩ := by
  have hfiles : (Ignore.directoriesWithFile [] renamed.top).filter
      (!Ignore.liesInExcluded [".git", "node_modules"] ·) = ([[]] : List Route) := by decide +kernel
  exact load_eq_addFiles rfl hfiles (Nat.le_refl 1)

/-- The plan of a scan of that tree. -/
def renamedPlan : Plan := ⟨renamed, [], { followsIgnoreFiles := true }, some renamedRules⟩

theorem plan_renamed : (plan renamed { followsIgnoreFiles := true } []).1 = renamedPlan := by
  rw [plan_of_follows renamed [] rfl, load_renamed]
  rfl

theorem through_renamed : Walk.through renamedPlan (depthLimit renamed) [] {} = ⟨[], [["releases"], []], [], none⟩ := by
  cbv

theorem files_renamed : (sourceFiles renamed { followsIgnoreFiles := true } []).files = .ok [] :=
  files_of_through rfl load_renamed through_renamed rfl

theorem succeeds_renamed : ∀ log w, Ends (plan renamed { followsIgnoreFiles := true } []).1 (.directory []) {} log w →
    ∀ call ∈ log, call.Succeeds (plan renamed { followsIgnoreFiles := true } []).1 := by
  intro log w hends
  rw [plan_renamed] at hends ⊢
  refine succeeds_of_unfailing ?_ hends
  rw [show depthLimit renamedPlan.volume = depthLimit renamed from rfl, through_renamed]
  exact nofun

theorem way_renamed : Way renamedPlan ["releases"] ["releases"] := by
  have hroot : Way renamedPlan [] [] := .root (by rfl)
  have hbelow : renamed.locate ["releases"] = .ok (["releases"], .directory [("a.c", .file [])]) := by rfl
  exact .entry hroot rfl (by decide) (by decide +kernel) (by decide) hbelow

theorem isSource_renamed : IsSource renamed { followsIgnoreFiles := true } ["releases"] "a.c" := by
  refine ⟨⟨[("a.c", .file [])], rfl, by decide⟩, ⟨["releases", "a.c"], [], by rfl, nofun⟩, by decide⟩

/-- The link comes first in the order of names. -/
theorem sourceFiles_ways_renamed :
    (sourceFiles renamed { followsIgnoreFiles := true } []).files = .ok [] ∧
      ∃ log w, Ends renamedPlan (.directory []) {} log w ∧ Diverted renamedPlan log ["releases", "a.c"] := by
  have haskable : ∀ names, renamed.list [] = .ok names → ∀ name ∈ names, Ignore.isUnaskable [name] = false := by
    intro names hnames
    obtain rfl : [(".gitignore" : Text), "current", "releases"] = names := Except.ok.inj hnames
    decide
  obtain ⟨log, w, hends, hfiles, -, -, hways⟩ :=
    @sourceFiles_ways renamed { followsIgnoreFiles := true } [] (by decide) rfl rfl haskable succeeds_renamed
  rw [load_renamed] at hends hways
  obtain ⟨⟨route, hroute, _⟩ | hdiverted, _⟩ := hways _ _ _ way_renamed isSource_renamed (by decide +kernel)
  · rw [Except.ok.inj (hfiles.symm.trans files_renamed)] at hroute
    cases hroute
  · exact ⟨files_renamed, log, w, hends, hdiverted⟩

/-- Nothing on the way to the file is ignored, and yet it is lost. -/
theorem sourceFiles_renamed_lost :
    renamed.top.IsTree ∧
    (∀ log w, Ends (plan renamed { followsIgnoreFiles := true } []).1 (.directory []) {} log w →
      ∀ call ∈ log, call.Succeeds (plan renamed { followsIgnoreFiles := true } []).1) ∧
    Way (plan renamed { followsIgnoreFiles := true } []).1 ["releases"] ["releases"] ∧
    IsSource renamed { followsIgnoreFiles := true } ["releases"] "a.c" ∧
    (plan renamed { followsIgnoreFiles := true } []).1.keeps ["releases", "a.c"] = true ∧
    ¬∃ routes, (sourceFiles renamed { followsIgnoreFiles := true } []).files = .ok routes ∧
      ∃ route ∈ routes, LeadsTo renamed [] route ["releases"] "a.c" := by
  rw [plan_renamed]
  refine ⟨by decide, plan_renamed ▸ succeeds_renamed, way_renamed, isSource_renamed, by decide +kernel, ?_⟩
  rintro ⟨routes, hfiles, route, hroute, _⟩
  rw [← Except.ok.inj (files_renamed.symm.trans hfiles)] at hroute
  cases hroute

end CCompletion.Scan
