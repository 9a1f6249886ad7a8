import CCompletion.Proofs.Scan.Reach
import Mathlib

/-!
# The files of a scan

A scan that follows no ignore files and has no cap takes in the source files of all real directories that can be
reached from its root without entering an excluded name, each of them once, whatever the links are.
-/

namespace CCompletion.Scan

variable {v : Volume} {options : ScanOptions} {root : Route} {p : Plan} {w w' : Walk} {directory real route : Route}
  {name : Text} {names : List Text} {visit : Visit} {log : List Call} {entries : List (Text × Node)}

/-! ## Source files -/

/-- An entry of a real directory that leads to a file of a source's extension and of an allowed size. -/
structure IsSource (v : Volume) (options : ScanOptions) (real : Route) (name : Text) : Prop where
  listed : ∃ entries, v.top.at? real = some (.directory entries) ∧ name ∈ entries.map (·.1)
  file : ∃ below bytes, v.locate (real ++ [name]) = .ok (below, .file bytes) ∧
    ∀ kilobytes, options.maxKilobytes = some kilobytes → bytes.length ≤ kilobytes * 1024
  extension : Path.extension name ∈ options.extensions

/-- The route leads from the root through a real directory to its entry of a name. -/
def LeadsTo (v : Volume) (root route real : Route) (name : Text) : Prop :=
  ∃ directory, route = directory ++ [name] ∧ v.realRoute (root ++ directory) = .ok real

theorem isTooLarge_eq_none_iff {size : Nat} : p.isTooLarge size = none ↔
    ∀ kilobytes, p.options.maxKilobytes = some kilobytes → size ≤ kilobytes * 1024 := by
  rw [Plan.isTooLarge]
  cases p.options.maxKilobytes with
  | none => simp
  | some k => simp [Option.filter_eq_none_iff]

/-- An entry that could be looked at is taken in if it is a source file. -/
theorem takes_iff (htree : p.volume.top.IsTree)
    (hdirectory : p.volume.locate (p.root ++ directory) = .ok (real, .directory entries))
    (hname : name ∈ entries.map (·.1)) {info : EntryInfo}
    (hinspect : p.volume.inspect (p.root ++ (directory ++ [name])) = .ok info) :
    p.takes directory name = true ↔ IsSource p.volume p.options real name := by
  have hlisted := Volume.at?_of_locate hdirectory
  rw [Plan.takes, hinspect]
  obtain ⟨below, ⟨entries', hlocate, rfl⟩ | ⟨bytes, hlocate, rfl⟩⟩ := Volume.exists_locate_of_inspect hinspect
  · rw [← List.append_assoc] at hlocate
    have hreal := Volume.locate_real htree hdirectory hlocate
    refine iff_of_false Bool.false_ne_true fun h => ?_
    obtain ⟨below', bytes, hfile, _⟩ := h.file
    cases hreal.symm.trans hfile
  · rw [← List.append_assoc] at hlocate
    have hreal := Volume.locate_real htree hdirectory hlocate
    simp only [Bool.and_eq_true, Option.isNone_iff_eq_none, isTooLarge_eq_none_iff, Plan.isSource,
      List.contains_iff_mem]
    constructor
    · rintro ⟨hextension, hsize⟩
      exact ⟨⟨entries, hlisted, hname⟩, ⟨below, bytes, hreal, hsize⟩, hextension⟩
    · rintro ⟨_, ⟨below', bytes', hfile, hsize⟩, hextension⟩
      cases hreal.symm.trans hfile
      exact ⟨hextension, hsize⟩

theorem mem_files_iff (hlist : p.volume.list (p.root ++ visit.route) = .ok names) :
    route ∈ visit.files p ↔ ∃ name ∈ names, p.takes visit.route name = true ∧ route = visit.route ++ [name] := by
  simp only [Visit.files, hlist, filesIn, List.mem_map, List.mem_filter, Text.mem_sorted, and_assoc, eq_comm]

/-! ## Whole walks -/

/-- A walk through a whole tree on which no call failed. -/
structure IsWhole (p : Plan) (log : List Call) (w : Walk) : Prop where
  plain : p.IsPlain
  tree : p.volume.top.IsTree
  ends : Ends p (.directory []) {} log w
  succeeds : ∀ call ∈ log, call.Succeeds p

namespace IsWhole

variable (h : IsWhole p log w)

include h

theorem isSound (hvisit : visit ∈ visits log) : visit.IsSound p [] := by
  refine h.ends.isSound h.tree (fun real entries hroot => ?_) visit hvisit
  rw [List.append_nil] at hroot
  exact .root hroot

theorem realRoute_eq (hvisit : visit ∈ visits log) : p.volume.realRoute (p.root ++ visit.route) = .ok visit.real :=
  (h.isSound hvisit).real

theorem exists_entries (hvisit : visit ∈ visits log) : ∃ entries,
    p.volume.locate (p.root ++ visit.route) = .ok (visit.real, .directory entries) ∧
    p.volume.list (p.root ++ visit.route) = .ok (entries.map (·.1)) ∧
    ∀ name ∈ entries.map (·.1), Settled p w visit.route name := by
  obtain ⟨names, hlist, hnames⟩ := (h.ends.settled h.plain rfl h.succeeds).2 visit hvisit
  obtain ⟨entries, hlocate, rfl⟩ := Volume.locate_of_list (h.realRoute_eq hvisit) hlist
  exact ⟨entries, hlocate, hlist, hnames⟩

theorem exists_visit_of_entered (hreal : real ∈ w.entered) : ∃ visit ∈ visits log, visit.real = real := by
  rw [h.ends.entered_eq, List.append_nil, List.mem_reverse, List.mem_map] at hreal
  exact hreal

/-- Whatever can be reached is read. -/
theorem exists_visit (hreal : Reachable p.volume p.root p.options.excluded real) :
    ∃ visit ∈ visits log, visit.real = real := by
  induction hreal with
  | @root real entries hroot =>
    obtain ⟨real', hentered, hroute⟩ := (h.ends.settled h.plain rfl h.succeeds).1
    rw [List.append_nil] at hroute
    obtain ⟨node, hnode⟩ := Volume.exists_locate_of_realRoute hroute
    cases hroot.symm.trans hnode
    exact h.exists_visit_of_entered hentered
  | @entry real below entries entries' name _ hat hmem hname hbelow ih =>
    obtain ⟨visit, hvisit, rfl⟩ := ih
    obtain ⟨found, hlocate, _, hsettled⟩ := h.exists_entries hvisit
    cases hat.symm.trans (Volume.at?_of_locate hlocate)
    -- the walk asked about the entry by its own route, which leads to the same directory
    obtain ⟨info, hinspect, hdirectory⟩ := hsettled name hmem
    have hsame {place : Volume.Place} (hplace : p.volume.locate (p.root ++ (visit.route ++ [name])) = .ok place) :
        place = (below, .directory entries') := by
      rw [← List.append_assoc] at hplace
      exact Except.ok.inj ((Volume.locate_real h.tree hlocate hplace).symm.trans hbelow)
    obtain ⟨real', ⟨_, _, rfl⟩ | ⟨_, hfile, _⟩⟩ := Volume.exists_locate_of_inspect hinspect
    · obtain ⟨real', hentered, hroute⟩ := hdirectory rfl hname
      obtain ⟨node, hnode⟩ := Volume.exists_locate_of_realRoute hroute
      cases hsame hnode
      exact h.exists_visit_of_entered hentered
    · cases hsame hfile

theorem found_perm : w.found.Perm ((visits log).flatMap (Visit.files p)) := h.ends.found_perm h.plain rfl

theorem mem_found_iff : route ∈ w.found ↔
    ∃ visit ∈ visits log, ∃ name, route = visit.route ++ [name] ∧ IsSource p.volume p.options visit.real name := by
  rw [h.found_perm.mem_iff, List.mem_flatMap]
  refine exists_congr fun visit => and_congr_right fun hvisit => ?_
  obtain ⟨entries, hlocate, hlist, hsettled⟩ := h.exists_entries hvisit
  rw [mem_files_iff hlist]
  constructor
  · rintro ⟨name, hmem, htakes, rfl⟩
    obtain ⟨info, hinspect, _⟩ := hsettled name hmem
    exact ⟨name, rfl, (takes_iff h.tree hlocate hmem hinspect).mp htakes⟩
  · rintro ⟨name, rfl, hsource⟩
    obtain ⟨entries', hat, hmem⟩ := hsource.listed
    cases hat.symm.trans (Volume.at?_of_locate hlocate)
    obtain ⟨info, hinspect, _⟩ := hsettled name hmem
    exact ⟨name, hmem, (takes_iff h.tree hlocate hmem hinspect).mpr hsource, rfl⟩

theorem nodup_files (hvisit : visit ∈ visits log) : (visit.files p).Nodup := by
  obtain ⟨entries, hlocate, hlist, _⟩ := h.exists_entries hvisit
  have hnames := (h.tree.at? (Volume.at?_of_locate hlocate)).2.nodup
  rw [Visit.files, hlist]
  refine List.Nodup.map (fun name name' heq => ?_) (((Text.sorted_perm _).nodup_iff.mpr hnames).filter _)
  exact List.singleton_inj.mp (List.append_cancel_left heq)

theorem nodup_found : w.found.Nodup := by
  rw [h.found_perm.nodup_iff, List.nodup_flatMap]
  refine ⟨fun visit hvisit => h.nodup_files hvisit, ?_⟩
  have hreals : (visits log).Pairwise fun visit visit' => visit.real ≠ visit'.real :=
    List.pairwise_map.mp h.ends.nodup_reals
  refine hreals.imp_of_mem fun {visit visit'} hvisit hvisit' hne => ?_
  obtain ⟨_, _, hlist, _⟩ := h.exists_entries hvisit
  obtain ⟨_, _, hlist', _⟩ := h.exists_entries hvisit'
  intro route hroute hroute'
  obtain ⟨name, _, _, rfl⟩ := (mem_files_iff hlist).mp hroute
  obtain ⟨name', _, _, heq⟩ := (mem_files_iff hlist').mp hroute'
  -- one route is that of one directory, which has one real route
  have hsame : visit.route = visit'.route := (List.append_inj' heq rfl).1
  have hreal := h.realRoute_eq hvisit
  rw [hsame, h.realRoute_eq hvisit'] at hreal
  exact hne (Except.ok.inj hreal).symm

theorem names_of_mem_found (hroute : route ∈ w.found) : route ≠ [] ∧ (∀ name ∈ route, IsEntryName name) ∧
    ∀ name ∈ route.dropLast, name ∉ p.options.excluded := by
  obtain ⟨visit, hvisit, name, rfl, hsource⟩ := h.mem_found_iff.mp hroute
  obtain ⟨rest, hrest, hnames⟩ := (h.isSound hvisit).names
  rw [List.nil_append] at hrest
  subst hrest
  obtain ⟨entries, hat, hmem⟩ := hsource.listed
  refine ⟨List.append_ne_nil_of_right_ne_nil _ (List.cons_ne_nil _ _), fun other hother => ?_, fun other hother => ?_⟩
  · obtain hother | hother := List.mem_append.mp hother
    · exact (hnames other hother).1
    · rw [List.mem_singleton.mp hother]
      exact (h.tree.at? hat).2.isEntryName_of_mem hmem
  · rw [List.dropLast_concat] at hother
    exact (hnames other hother).2

theorem nodup_paths : (w.found.map fun route => Route.absolute (p.root ++ route)).Nodup := by
  refine h.nodup_found.map_on fun route hroute route' hroute' heq => ?_
  obtain ⟨hne, hnames, _⟩ := h.names_of_mem_found hroute
  obtain ⟨hne', hnames', _⟩ := h.names_of_mem_found hroute'
  exact Route.eq_of_absolute_append_eq hne hne' hnames hnames' heq

theorem existsUnique_route (hreal : Reachable p.volume p.root p.options.excluded real)
    (hsource : IsSource p.volume p.options real name) :
    ∃! route, route ∈ w.found ∧ LeadsTo p.volume p.root route real name := by
  obtain ⟨visit, hvisit, rfl⟩ := h.exists_visit hreal
  refine ⟨visit.route ++ [name], ⟨h.mem_found_iff.mpr ⟨visit, hvisit, name, rfl, hsource⟩,
    visit.route, rfl, h.realRoute_eq hvisit⟩, ?_⟩
  rintro route' ⟨hroute', directory, rfl, hdirectory⟩
  obtain ⟨visit', hvisit', name', heq, _⟩ := h.mem_found_iff.mp hroute'
  obtain ⟨rfl, _⟩ := List.append_inj' heq rfl
  -- the real directory is read once, so it is the same visit
  have hreal := h.realRoute_eq hvisit'
  rw [hdirectory] at hreal
  rw [List.inj_on_of_nodup_map h.ends.nodup_reals hvisit hvisit' (Except.ok.inj hreal)]

theorem exists_leadsTo (hroute : route ∈ w.found) : ∃ real name, Reachable p.volume p.root p.options.excluded real ∧
    IsSource p.volume p.options real name ∧ LeadsTo p.volume p.root route real name := by
  obtain ⟨visit, hvisit, name, rfl, hsource⟩ := h.mem_found_iff.mp hroute
  obtain ⟨entries, hlocate, _⟩ := h.exists_entries hvisit
  exact ⟨visit.real, name, (h.isSound hvisit).reachable entries hlocate, hsource, visit.route, rfl,
    h.realRoute_eq hvisit⟩

end IsWhole

/-! ## Scans -/

/-- What the routes that a scan returns are to be. -/
structure Finds (v : Volume) (options : ScanOptions) (root : Route) (routes : List Route) : Prop where
  distinct : (routes.map fun route => Route.absolute (root ++ route)).Nodup
  complete : ∀ real name, Reachable v root options.excluded real → IsSource v options real name →
    ∃! route, route ∈ routes ∧ LeadsTo v root route real name
  sound : ∀ route ∈ routes, ∃ real name, Reachable v root options.excluded real ∧ IsSource v options real name ∧
    LeadsTo v root route real name
  avoids : ∀ route ∈ routes, ∀ name ∈ route.dropLast, name ∉ options.excluded

theorem IsWhole.finds (h : IsWhole p log w) : Finds p.volume p.options p.root w.found where
  distinct := h.nodup_paths
  complete _ _ hreal hsource := h.existsUnique_route hreal hsource
  sound _ hroute := h.exists_leadsTo hroute
  avoids _ hroute := (h.names_of_mem_found hroute).2.2

theorem plan_eq (v : Volume) (root : Route) (hrules : options.followsIgnoreFiles = false) :
    plan v options root = (⟨v, root, options, none⟩, []) := by
  rw [plan, hrules]
  rfl

theorem plan_of_follows (v : Volume) (root : Route) (hfollows : options.followsIgnoreFiles = true) :
    (plan v options root).1 = ⟨v, root, options, some (Ignore.load v options.excluded root).rules⟩ := by
  unfold plan
  rw [if_pos hfollows]

theorem files_of_ends (hends : Ends (plan v options root).1 (.directory []) {} log w) (hw : w.unaskable = none) :
    (sourceFiles v options root).files = .ok w.found := by
  have hvolume : (plan v options root).1.volume = v := by
    unfold plan
    split <;> rfl
  have hdepth : depthLimit (plan v options root).1.volume ≤ depthLimit v := by rw [hvolume]
  obtain ⟨log', hends'⟩ := exists_ends (plan v options root).1 hdepth
  have hsame := (hends'.unique hends).2
  simp only [sourceFiles, hsame, hw]

theorem files_of_through {rules : List Ignore.Rule} {isWhole : Bool} (hfollows : options.followsIgnoreFiles = true)
    (hload : Ignore.load v options.excluded root = ⟨rules, isWhole⟩)
    (hwalk : Walk.through ⟨v, root, options, some rules⟩ (depthLimit v) [] {} = w) (hw : w.unaskable = none) :
    (sourceFiles v options root).files = .ok w.found := by
  obtain ⟨log, hends⟩ := exists_ends ⟨v, root, options, some rules⟩ (Nat.le_refl (depthLimit v))
  have hplan : (plan v options root).1 = ⟨v, root, options, some rules⟩ := by
    rw [plan_of_follows v root hfollows, hload]
  rw [hwalk, ← hplan] at hends
  exact files_of_ends hends hw

/-- One ignore file at most needs no order. -/
theorem load_eq_addFiles {excluded : List Text} {real : Route} {node : Node} {ds : List Route}
    (hlocate : v.locate root = .ok (real, node))
    (hfiles : (Ignore.directoriesWithFile [] node).filter (!Ignore.liesInExcluded excluded ·) = ds)
    (hlength : ds.length ≤ 1) : Ignore.load v excluded root = Ignore.Loaded.addFiles v root {} ds := by
  rw [Ignore.load, Ignore.fileDirectories, hlocate]
  simp only [hfiles]
  cases ds with
  | nil => rw [List.mergeSort_nil]
  | cons d ds =>
    obtain rfl := List.length_eq_zero_iff.mp (Nat.le_zero.mp (Nat.le_of_succ_le_succ hlength))
    rw [List.mergeSort_singleton]

theorem sourceFiles_eq (v : Volume) (root : Route) (hrules : options.followsIgnoreFiles = false)
    (huncapped : options.maxFiles = none) (hw : Walk.through ⟨v, root, options, none⟩ (depthLimit v) [] {} = w) :
    sourceFiles v options root = ⟨.ok w.found, w.warnings⟩ := by
  obtain ⟨log, hends⟩ := exists_ends ⟨v, root, options, none⟩ (Nat.le_refl _)
  have hunaskable := hends.unaskable ⟨rfl, huncapped⟩ rfl
  simp only [hw] at hunaskable
  simp only [sourceFiles, plan_eq v root hrules, hw, hunaskable, List.nil_append]

/-- A scan that follows no ignore files and has no cap ends and reads each real directory at most once; where no call
fails, it finds one path to each source file of the real directories that can be reached by names that are not
excluded. -/
theorem sourceFiles_finds (htree : v.top.IsTree) (hrules : options.followsIgnoreFiles = false)
    (huncapped : options.maxFiles = none)
    (hcalls : ∀ log w, Ends (plan v options root).1 (.directory []) {} log w →
      ∀ call ∈ log, call.Succeeds (plan v options root).1) :
    ∃ log w routes, Ends (plan v options root).1 (.directory []) {} log w ∧
      (∀ depth, depthLimit v ≤ depth → Walk.through (plan v options root).1 depth [] {} = w) ∧
      ((visits log).map (·.real)).Nodup ∧ (sourceFiles v options root).files = .ok routes ∧
      Finds v options root routes := by
  rw [plan_eq v root hrules] at hcalls ⊢
  obtain ⟨log, hends⟩ := exists_ends ⟨v, root, options, none⟩ (Nat.le_refl _)
  have hwhole : IsWhole ⟨v, root, options, none⟩ log _ := ⟨⟨rfl, huncapped⟩, htree, hends, hcalls log _ hends⟩
  refine ⟨log, _, _, hends, fun depth hdepth => ?_, hends.nodup_reals, ?_, hwhole.finds⟩
  · obtain ⟨log', hends'⟩ := exists_ends ⟨v, root, options, none⟩ hdepth
    exact (hends'.unique hends).2
  · rw [sourceFiles_eq v root hrules huncapped rfl]

/-- A directory below the top has a link up to it, and the top has a second name for that directory. -/
def linkedBack : Volume where
  top := .directory [("a.c", .file []), ("d", .directory [("b.h", .file []), ("up", .link "..")]), ("l", .link "d")]

theorem isTree_linkedBack : linkedBack.top.IsTree := by decide

theorem sourceFiles_finds_linkedBack :
    (sourceFiles linkedBack {} []).files = .ok [["a.c"], ["d", "b.h"]] ∧
      Finds linkedBack {} [] [["a.c"], ["d", "b.h"]] := by
  have hwalk : Walk.through ⟨linkedBack, [], {}, none⟩ (depthLimit linkedBack) [] {} =
      ⟨[["a.c"], ["d", "b.h"]], [["d"], []], [], none⟩ := by cbv
  have hcalls : ∀ log w, Ends (plan linkedBack {} []).1 (.directory []) {} log w →
      ∀ call ∈ log, call.Succeeds (plan linkedBack {} []).1 := by
    intro log w hends
    rw [plan_eq linkedBack [] rfl] at hends ⊢
    refine succeeds_of_unfailing ?_ hends
    rw [hwalk]
    exact List.forall_mem_nil _
  obtain ⟨_, _, routes, _, _, _, hfiles, hfinds⟩ := sourceFiles_finds isTree_linkedBack rfl rfl hcalls
  have hroutes := sourceFiles_eq linkedBack [] rfl rfl hwalk
  rw [hroutes] at hfiles ⊢
  rw [← Except.ok.inj hfiles] at hfinds
  exact ⟨rfl, hfinds⟩

end CCompletion.Scan
