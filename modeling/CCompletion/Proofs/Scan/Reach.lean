import CCompletion.Proofs.Scan.Walk

/-!
# What a walk comes by

Where nothing is ignored and there is no cap, a walk finds the files of the directories that it reads. It reads only what
can be reached, and where no call fails it passes over nothing that is to be entered.
-/

namespace CCompletion.Scan

variable {v : Volume} {options : ScanOptions} {root : Route} {p : Plan} {w w' : Walk} {directory real route : Route}
  {name : Text} {names : List Text} {task : Task} {visit : Visit} {log : List Call}
  {entries : List (Text × Node)}

/-! ## Walks without rules -/

/-- Nothing is ignored, and there is no cap. -/
structure Plan.IsPlain (p : Plan) : Prop where
  rules : p.rules = none
  uncapped : p.options.maxFiles = none

theorem looksAt_eq_true (hp : p.IsPlain) (hw : w.unaskable = none) : p.looksAt directory w name = true := by
  simp [Plan.looksAt, Plan.isOver, Plan.isFull, hw, hp.uncapped, hp.rules]

theorem calls_eq (hp : p.IsPlain) (hw : w.unaskable = none) :
    p.calls directory w name = [.inspect (directory ++ [name])] := if_pos (looksAt_eq_true hp hw)

theorem found_pass (hp : p.IsPlain) (hw : w.unaskable = none) :
    (w.pass p directory name).found = w.found ++ p.filesAt directory name := by
  rw [pass_of_looksAt (looksAt_eq_true hp hw)]

theorem unaskable_pass (hp : p.IsPlain) (hw : w.unaskable = none) : (w.pass p directory name).unaskable = none := by
  rw [pass_of_looksAt (looksAt_eq_true hp hw), hw]

theorem Ends.unaskable (h : Ends p task w log w') (hp : p.IsPlain) (hw : w.unaskable = none) :
    w'.unaskable = none := by
  induction h with
  | unresolved => exact hw
  | reentered => exact hw
  | unread => exact hw
  | done => exact hw
  | listed _ _ _ _ ih => exact ih hw
  | passed _ _ ih => exact ih (unaskable_pass hp hw)
  | deeper _ _ _ ih ihrest => exact ihrest (ih hw)

/-! ## Files -/

/-- The files that are taken in from some entries of a directory. -/
def filesIn (p : Plan) (directory : Route) (names : List Text) : List Route :=
  (names.filter fun name => p.takes directory name).map fun name => directory ++ [name]

def Visit.files (p : Plan) (visit : Visit) : List Route :=
  match p.volume.list (p.root ++ visit.route) with
  | .ok names => filesIn p visit.route (Text.sorted names)
  | .error _ => []

/-- The files that a task takes in by itself. -/
def Task.files (p : Plan) : Task → List Route
  | .directory _ => []
  | .entries directory names => filesIn p directory names

theorem filesIn_cons : filesIn p directory (name :: names) = p.filesAt directory name ++ filesIn p directory names := by
  rw [filesIn, List.filter_cons, Plan.filesAt]
  split <;> rfl

/-- What a walk finds are the files of the directories that it reads. -/
theorem Ends.found_perm (h : Ends p task w log w') (hp : p.IsPlain) (hw : w.unaskable = none) :
    w'.found.Perm (w.found ++ (task.files p ++ (visits log).flatMap (Visit.files p))) := by
  induction h with
  | unresolved => simp [Task.files, Walk.warn]
  | reentered => simp [Task.files]
  | unread _ _ hlist => simp [Task.files, Visit.files, hlist, Walk.warn, Walk.enter]
  | done => simp [Task.files, filesIn]
  | listed _ _ hlist _ ih =>
    rw [visits_resolve, visits_read, List.flatMap_cons, Visit.files, hlist]
    exact ih hw
  | @passed directory name names w w' log hname _ ih =>
    have hrest := ih (unaskable_pass hp hw)
    rw [found_pass hp hw, List.append_assoc] at hrest
    rwa [Task.files, filesIn_cons, visits_calls_append, List.append_assoc]
  | @deeper directory name names w w' w'' log log' hname hbelow _ ih ihrest =>
    have hfirst : w'.found.Perm (w.found ++ (visits log).flatMap (Visit.files p)) := ih hw
    have hlast : w''.found.Perm (w'.found ++ (filesIn p directory names ++ (visits log').flatMap (Visit.files p))) :=
      ihrest (hbelow.unaskable hp hw)
    have hown : filesIn p directory (name :: names) = filesIn p directory names := by
      rw [filesIn_cons, Plan.filesAt, takes_of_enters hname]
      rfl
    rw [Task.files, hown, visits_calls_append, visits_append, List.flatMap_append]
    -- the files below the entry were found before those of the entries after it
    refine hlast.trans ((hfirst.append_right _).trans ?_)
    rw [List.append_assoc]
    exact List.Perm.append_left _ (List.perm_append_comm_assoc _ _ _)

/-! ## Walks on which no call fails -/

/-- The directory at a route has been entered. -/
def Entered (p : Plan) (w : Walk) (route : Route) : Prop :=
  ∃ real ∈ w.entered, p.volume.realRoute (p.root ++ route) = .ok real

/-- An entry of a directory was looked at, and entered if it is a directory to enter. -/
def Settled (p : Plan) (w : Walk) (directory : Route) (name : Text) : Prop :=
  ∃ info, p.volume.inspect (p.root ++ (directory ++ [name])) = .ok info ∧
    (info = .directory → name ∉ p.options.excluded → Entered p w (directory ++ [name]))

/-- All entries of a directory that was read are settled. -/
def Visit.Settled (p : Plan) (w : Walk) (visit : Visit) : Prop :=
  ∃ names, p.volume.list (p.root ++ visit.route) = .ok names ∧ ∀ name ∈ names, Scan.Settled p w visit.route name

def Task.Settled (p : Plan) (w : Walk) : Task → Prop
  | .directory route => Entered p w route
  | .entries directory names => ∀ name ∈ names, Scan.Settled p w directory name

theorem Settled.mono (h : Settled p w directory name) (hentered : w.entered ⊆ w'.entered) :
    Settled p w' directory name := by
  obtain ⟨info, hinfo, hdirectory⟩ := h
  refine ⟨info, hinfo, fun hi hname => ?_⟩
  obtain ⟨real, hreal, hroute⟩ := hdirectory hi hname
  exact ⟨real, hentered hreal, hroute⟩

theorem Visit.Settled.mono (h : visit.Settled p w) (hentered : w.entered ⊆ w'.entered) : visit.Settled p w' := by
  obtain ⟨names, hlist, hnames⟩ := h
  exact ⟨names, hlist, fun name hname => (hnames name hname).mono hentered⟩

/-- Where no call fails, all that a walk comes by is settled in the end. -/
theorem Ends.settled (h : Ends p task w log w') (hp : p.IsPlain) (hw : w.unaskable = none)
    (hcalls : ∀ call ∈ log, call.Succeeds p) : task.Settled p w' ∧ ∀ visit ∈ visits log, visit.Settled p w' := by
  induction h with
  | unresolved hreal =>
    obtain ⟨real, hreal'⟩ := hcalls _ List.mem_cons_self
    cases hreal.symm.trans hreal'
  -- a directory that is met again counts as entered, though the walk through it may not have ended
  | reentered hreal hentered => exact ⟨⟨_, hentered, hreal⟩, nofun⟩
  | unread _ _ hlist =>
    obtain ⟨names, hlist'⟩ := hcalls _ (List.mem_cons_of_mem _ List.mem_cons_self)
    cases hlist.symm.trans hlist'
  | done => exact ⟨nofun, nofun⟩
  | listed hreal _ hlist hentries ih =>
    obtain ⟨hnames, hlog⟩ := ih hw fun call hcall => hcalls call (List.mem_cons_of_mem _ (List.mem_cons_of_mem _ hcall))
    refine ⟨⟨_, hentries.entered_subset List.mem_cons_self, hreal⟩, ?_⟩
    rw [visits_resolve, visits_read]
    exact List.forall_mem_cons.mpr ⟨⟨_, hlist, fun name hname => hnames name (Text.mem_sorted.mpr hname)⟩, hlog⟩
  | passed hname hrest ih =>
    rw [calls_eq hp hw] at hcalls ⊢
    obtain ⟨⟨info, hinspect⟩, hcalls⟩ := List.forall_mem_cons.mp hcalls
    obtain ⟨hnames, hlog⟩ := ih (unaskable_pass hp hw) hcalls
    refine ⟨List.forall_mem_cons.mpr ⟨⟨info, hinspect, ?_⟩, hnames⟩, hlog⟩
    rintro rfl hexcluded
    exact absurd ⟨looksAt_eq_true hp hw, hinspect, hexcluded⟩ hname
  | deeper hname hbelow hrest ih ihrest =>
    obtain ⟨_, hcalls⟩ := List.forall_mem_append.mp hcalls
    obtain ⟨hcalls, hcalls'⟩ := List.forall_mem_append.mp hcalls
    obtain ⟨hentered, hlog⟩ := ih hw hcalls
    obtain ⟨hnames, hlog'⟩ := ihrest (hbelow.unaskable hp hw) hcalls'
    have hfirst : Settled p _ _ _ := ⟨_, hname.isDirectory, fun _ _ => hentered⟩
    refine ⟨List.forall_mem_cons.mpr ⟨hfirst.mono hrest.entered_subset, hnames⟩, ?_⟩
    rw [visits_calls_append, visits_append]
    exact List.forall_mem_append.mpr ⟨fun visit hvisit => (hlog visit hvisit).mono hrest.entered_subset, hlog'⟩

/-! ## What can be reached -/

/-- A real directory that can be reached from a root by entries whose names are not excluded. -/
inductive Reachable (v : Volume) (root : Route) (excluded : List Text) : Route → Prop
  | root {real : Route} {entries : List (Text × Node)} (hroot : v.locate root = .ok (real, .directory entries)) :
      Reachable v root excluded real
  | entry {real below : Route} {entries entries' : List (Text × Node)} {name : Text}
      (hreal : Reachable v root excluded real) (hat : v.top.at? real = some (.directory entries))
      (hmem : name ∈ entries.map (·.1)) (hname : name ∉ excluded)
      (hbelow : v.locate (real ++ [name]) = .ok (below, .directory entries')) : Reachable v root excluded below

/-- What a walk knows of the directories that it reads, `start` being where it started. -/
structure Visit.IsSound (p : Plan) (start : Route) (visit : Visit) : Prop where
  real : p.volume.realRoute (p.root ++ visit.route) = .ok visit.real
  names : ∃ rest, visit.route = start ++ rest ∧ ∀ name ∈ rest, IsEntryName name ∧ name ∉ p.options.excluded
  reachable : ∀ entries, p.volume.locate (p.root ++ visit.route) = .ok (visit.real, .directory entries) →
    Reachable p.volume p.root p.options.excluded visit.real

def Task.start : Task → Route
  | .directory route => route
  | .entries directory _ => directory

/-- The task is below what can be reached. -/
def Task.IsReached (p : Plan) : Task → Prop
  | .directory route => ∀ real entries, p.volume.locate (p.root ++ route) = .ok (real, .directory entries) →
    Reachable p.volume p.root p.options.excluded real
  | .entries directory names => ∃ real entries, p.volume.locate (p.root ++ directory) = .ok (real, .directory entries) ∧
    Reachable p.volume p.root p.options.excluded real ∧ ∀ name ∈ names, name ∈ entries.map (·.1)

theorem Visit.IsSound.of_entry (h : visit.IsSound p (directory ++ [name])) (hname : IsEntryName name)
    (hexcluded : name ∉ p.options.excluded) : visit.IsSound p directory := by
  obtain ⟨rest, hroute, hrest⟩ := h.names
  refine ⟨h.real, ⟨name :: rest, ?_, List.forall_mem_cons.mpr ⟨⟨hname, hexcluded⟩, hrest⟩⟩, h.reachable⟩
  rw [hroute, List.append_assoc, List.singleton_append]

theorem Task.IsReached.below (htree : p.volume.top.IsTree) (h : (Task.entries directory (name :: names)).IsReached p)
    (hexcluded : name ∉ p.options.excluded) :
    IsEntryName name ∧ (Task.directory (directory ++ [name])).IsReached p := by
  obtain ⟨real, entries, hlocate, hreal, hnames⟩ := h
  have hat := Volume.at?_of_locate hlocate
  have hmem := hnames name List.mem_cons_self
  refine ⟨(htree.at? hat).2.isEntryName_of_mem hmem, fun below entries' hbelow => ?_⟩
  rw [← List.append_assoc] at hbelow
  exact .entry hreal hat hmem hexcluded (Volume.locate_real htree hlocate hbelow)

theorem Task.IsReached.tail (h : (Task.entries directory (name :: names)).IsReached p) :
    (Task.entries directory names).IsReached p := by
  obtain ⟨real, entries, hlocate, hreal, hnames⟩ := h
  exact ⟨real, entries, hlocate, hreal, fun other hother => hnames other (List.mem_cons_of_mem name hother)⟩

/-- A walk reads only what can be reached, and by names that are not excluded. -/
theorem Ends.isSound (h : Ends p task w log w') (htree : p.volume.top.IsTree) (htask : task.IsReached p) :
    ∀ visit ∈ visits log, visit.IsSound p task.start := by
  have hnone : ∀ name ∈ ([] : Route), IsEntryName name ∧ name ∉ p.options.excluded := List.forall_mem_nil _
  induction h with
  | unresolved => exact List.forall_mem_nil _
  | reentered => exact List.forall_mem_nil _
  | done => exact List.forall_mem_nil _
  | @unread directory real w e hreal _ _ =>
    refine List.forall_mem_singleton.mpr ⟨hreal, ⟨[], (List.append_nil _).symm, hnone⟩, fun entries hlocate => ?_⟩
    exact htask real entries hlocate
  | @listed directory real names w w' log hreal _ hlist _ ih =>
    obtain ⟨entries, hlocate, rfl⟩ := Volume.locate_of_list hreal hlist
    have hreached := htask real entries hlocate
    rw [visits_resolve, visits_read]
    refine List.forall_mem_cons.mpr ⟨⟨hreal, ⟨[], (List.append_nil _).symm, hnone⟩, fun _ _ => hreached⟩, ?_⟩
    exact ih ⟨real, entries, hlocate, hreached, fun name hname => Text.mem_sorted.mp hname⟩
  | passed _ _ ih =>
    rw [visits_calls_append]
    exact ih htask.tail
  | deeper hname _ _ ih ihrest =>
    rw [visits_calls_append, visits_append]
    obtain ⟨hentry, hbelow⟩ := htask.below htree hname.notExcluded
    refine List.forall_mem_append.mpr ⟨fun visit hvisit => ?_, ihrest htask.tail⟩
    exact (ih hbelow visit hvisit).of_entry hentry hname.notExcluded

end CCompletion.Scan
