import CCompletion.Proofs.Scan.Pruning

/-!
# The way of a walk

A walk without a cap attends to every entry of the directories that it reads and that its rules keep, whatever calls
fail on the way. Where there are no links, it reads a directory just when nothing is in the way from the root.
-/

namespace CCompletion.Scan

variable {v : Volume} {options : ScanOptions} {root : Route} {p : Plan} {w w' : Walk} {directory real route : Route}
  {name : Text} {names : List Text} {task : Task} {visit : Visit} {log log' : List Call}

/-! ## Plans without a cap -/

namespace Plan

/-- There is no cap, and the rules can be asked about all entries of the root. -/
structure IsOpen (p : Plan) : Prop where
  uncapped : p.options.maxFiles = none
  askable : p.rules.isSome = true → ∀ names, p.volume.list p.root = .ok names →
    ∀ name ∈ names, Ignore.isUnaskable [name] = false

theorem IsPlain.isOpen (h : p.IsPlain) : p.IsOpen := by
  refine ⟨h.uncapped, fun hrules => ?_⟩
  rw [h.rules] at hrules
  cases hrules

/-- No rule ignores the entry. -/
def keeps (p : Plan) (route : Route) : Bool := !p.rules.any (Ignore.ignores · route)

/-- The entry is kept and is a source file to take in. -/
def admits (p : Plan) (directory : Route) (name : Text) : Bool :=
  p.keeps (directory ++ [name]) && p.takes directory name

end Plan

/-- The rules can be asked about what the task is about. -/
def Task.IsAskable (p : Plan) : Task → Prop
  | .directory route => p.rules.isSome = true → Ignore.isUnaskable route = false
  | .entries directory names => p.rules.isSome = true → ∀ name ∈ names, Ignore.isUnaskable (directory ++ [name]) = false

namespace Task.IsAskable

theorem tail (h : (Task.entries directory (name :: names)).IsAskable p) : (Task.entries directory names).IsAskable p :=
  fun hrules other hother => h hrules other (List.mem_cons_of_mem name hother)

theorem below (h : (Task.entries directory (name :: names)).IsAskable p) :
    (Task.directory (directory ++ [name])).IsAskable p := fun hrules => h hrules name List.mem_cons_self

theorem entries (h : (Task.directory directory).IsAskable p) (hp : p.IsOpen)
    (hlist : p.volume.list (p.root ++ directory) = .ok names) :
    (Task.entries directory (Text.sorted names)).IsAskable p := by
  intro hrules name hname
  -- the first name on the way decides what can be asked, and that of a root's entry is its own
  cases directory with
  | nil =>
    rw [List.append_nil] at hlist
    exact hp.askable hrules _ hlist name (Text.mem_sorted.mp hname)
  | cons first rest => exact h hrules

theorem start (p : Plan) : (Task.directory []).IsAskable p := fun _ => rfl

end Task.IsAskable

section Entry

variable (hp : p.IsOpen) (hw : w.unaskable = none) (haskable : (Task.entries directory (name :: names)).IsAskable p)

include hp hw haskable

theorem looksAt_eq_keeps : p.looksAt directory w name = p.keeps (directory ++ [name]) := by
  have hasked : (p.rules.isSome && Ignore.isUnaskable (directory ++ [name])) = false := by
    cases hrules : p.rules.isSome with
    | false => rfl
    | true => exact haskable hrules name List.mem_cons_self
  simp [Plan.looksAt, Plan.isOver, Plan.isFull, Plan.keeps, hw, hp.uncapped, hasked]

theorem pass_of_not_keeps (hkept : p.keeps (directory ++ [name]) = false) : w.pass p directory name = w := by
  have hasked : (p.rules.isSome && Ignore.isUnaskable (directory ++ [name])) = false := by
    cases hrules : p.rules.isSome with
    | false => rfl
    | true => exact haskable hrules name List.mem_cons_self
  rw [Plan.keeps, Bool.not_eq_false'] at hkept
  simp [Walk.pass, Walk.addEntry, Plan.isOver, Plan.isFull, hw, hp.uncapped, hasked, hkept]

theorem unaskable_pass_of_isOpen : (w.pass p directory name).unaskable = none := by
  cases hkept : p.keeps (directory ++ [name]) with
  | false => rw [pass_of_not_keeps hp hw haskable hkept, hw]
  | true => rw [pass_of_looksAt ((looksAt_eq_keeps hp hw haskable).trans hkept), hw]

theorem mem_found_pass_iff : route ∈ (w.pass p directory name).found ↔
    route ∈ w.found ∨ p.admits directory name = true ∧ route = directory ++ [name] := by
  rw [Plan.admits]
  cases hkept : p.keeps (directory ++ [name]) with
  | false => simp [pass_of_not_keeps hp hw haskable hkept]
  | true =>
    rw [pass_of_looksAt ((looksAt_eq_keeps hp hw haskable).trans hkept), Plan.filesAt]
    cases p.takes directory name <;> simp

end Entry

/-- The rules could be asked about all that the walk came by. -/
theorem Ends.unaskable_of_isOpen (h : Ends p task w log w') (hp : p.IsOpen) (hw : w.unaskable = none)
    (htask : task.IsAskable p) : w'.unaskable = none := by
  induction h with
  | unresolved => exact hw
  | reentered => exact hw
  | unread => exact hw
  | done => exact hw
  | listed _ _ hlist _ ih => exact ih hw (htask.entries hp hlist)
  | passed _ _ ih => exact ih (unaskable_pass_of_isOpen hp hw htask) htask.tail
  | deeper _ _ _ ih ihrest => exact ihrest (ih hw htask.below) htask.tail

/-! ## What is found -/

/-- The file is an admitted entry of the directory that is read. -/
def Visit.Finds (p : Plan) (visit : Visit) (route : Route) : Prop :=
  ∃ names name, p.volume.list (p.root ++ visit.route) = .ok names ∧ name ∈ names ∧
    p.admits visit.route name = true ∧ route = visit.route ++ [name]

/-- The file is an admitted entry of the task itself. -/
def Task.Finds (p : Plan) : Task → Route → Prop
  | .directory _, _ => False
  | .entries directory names, route => ∃ name ∈ names, p.admits directory name = true ∧ route = directory ++ [name]

theorem Task.finds_cons_iff : (Task.entries directory (name :: names)).Finds p route ↔
    (p.admits directory name = true ∧ route = directory ++ [name]) ∨ (Task.entries directory names).Finds p route :=
  List.exists_mem_cons_iff _ _ _

theorem admits_of_enters (h : p.Enters directory w name) : p.admits directory name = false := by
  rw [Plan.admits, takes_of_enters h, Bool.and_false]

/-- What a walk finds are the admitted entries of the directories that it reads. -/
theorem Ends.mem_found_iff (h : Ends p task w log w') (hp : p.IsOpen) (hw : w.unaskable = none)
    (htask : task.IsAskable p) :
    route ∈ w'.found ↔ route ∈ w.found ∨ task.Finds p route ∨ ∃ visit ∈ visits log, visit.Finds p route := by
  induction h with
  | unresolved => simp [Task.Finds, Walk.warn]
  | reentered => simp [Task.Finds]
  | unread _ _ hlist => simp [Task.Finds, Visit.Finds, hlist, Walk.warn, Walk.enter]
  | done => simp [Task.Finds]
  | @listed directory real names w w' log _ _ hlist _ ih =>
    have hown : (Task.entries directory (Text.sorted names)).Finds p route ↔ Visit.Finds p ⟨directory, real⟩ route := by
      simp [Task.Finds, Visit.Finds, hlist]
    rw [ih hw (htask.entries hp hlist), visits_resolve, visits_read, List.exists_mem_cons_iff, hown]
    simp [Task.Finds, Walk.enter]
  | passed _ _ ih =>
    rw [ih (unaskable_pass_of_isOpen hp hw htask) htask.tail, mem_found_pass_iff hp hw htask, visits_calls_append,
      Task.finds_cons_iff, or_assoc, or_assoc]
  | @deeper directory name names w w' w'' log log' hname hbelow _ ih ihrest =>
    rw [ihrest (hbelow.unaskable_of_isOpen hp hw htask.below) htask.tail, ih hw htask.below, visits_calls_append,
      visits_append, Task.finds_cons_iff, admits_of_enters hname]
    simp only [Task.Finds, Bool.false_eq_true, false_and, false_or, List.mem_append, or_and_right, exists_or]
    -- the files below the entry were found before those of the entries after it
    rw [or_assoc]
    exact or_congr_right or_left_comm

/-! ## What is attended to -/

/-- A directory has been asked for and, if it could be resolved, entered. -/
def Met (p : Plan) (log : List Call) (w : Walk) (route : Route) : Prop :=
  .resolve route ∈ log ∧ ∀ real, p.volume.realRoute (p.root ++ route) = .ok real → real ∈ w.entered

/-- An entry that is kept has been looked at, and met if it is a directory to enter. -/
def Attended (p : Plan) (log : List Call) (w : Walk) (directory : Route) (name : Text) : Prop :=
  p.keeps (directory ++ [name]) = true → .inspect (directory ++ [name]) ∈ log ∧
    (p.volume.inspect (p.root ++ (directory ++ [name])) = .ok .directory → name ∉ p.options.excluded →
      Met p log w (directory ++ [name]))

def Visit.Attended (p : Plan) (log : List Call) (w : Walk) (visit : Visit) : Prop :=
  ∀ names, p.volume.list (p.root ++ visit.route) = .ok names →
    ∀ name ∈ names, Scan.Attended p log w visit.route name

def Task.Attended (p : Plan) (log : List Call) (w : Walk) : Task → Prop
  | .directory route => Met p log w route
  | .entries directory names => ∀ name ∈ names, Scan.Attended p log w directory name

section Mono

variable (hlog : log ⊆ log') (hentered : w.entered ⊆ w'.entered)

include hlog hentered

theorem Met.mono (h : Met p log w route) : Met p log' w' route :=
  ⟨hlog h.1, fun real hreal => hentered (h.2 real hreal)⟩

theorem Attended.mono (h : Attended p log w directory name) : Attended p log' w' directory name := fun hkept =>
  ⟨hlog (h hkept).1, fun hinspect hexcluded => ((h hkept).2 hinspect hexcluded).mono hlog hentered⟩

theorem Visit.Attended.mono (h : visit.Attended p log w) : visit.Attended p log' w' :=
  fun names hlist name hname => (h names hlist name hname).mono hlog hentered

theorem Task.Attended.mono (h : task.Attended p log w) : task.Attended p log' w' := by
  cases task with
  | directory route => exact Met.mono hlog hentered h
  | entries directory names => exact fun name hname => (h name hname).mono hlog hentered

end Mono

/-- A walk attends to all that it comes by. -/
theorem Ends.attended (h : Ends p task w log w') (hp : p.IsOpen) (hw : w.unaskable = none)
    (htask : task.IsAskable p) : task.Attended p log w' ∧ ∀ visit ∈ visits log, visit.Attended p log w' := by
  induction h with
  | unresolved hreal =>
    refine ⟨⟨List.mem_cons_self, fun real hreal' => ?_⟩, nofun⟩
    cases hreal.symm.trans hreal'
  | reentered hreal hentered =>
    refine ⟨⟨List.mem_cons_self, fun real hreal' => ?_⟩, nofun⟩
    rwa [← Except.ok.inj (hreal.symm.trans hreal')]
  | unread hreal _ hlist =>
    refine ⟨⟨List.mem_cons_self, fun real hreal' => ?_⟩, List.forall_mem_singleton.mpr fun names hlist' => ?_⟩
    · rw [← Except.ok.inj (hreal.symm.trans hreal')]
      exact List.mem_cons_self
    · cases hlist.symm.trans hlist'
  | done => exact ⟨nofun, nofun⟩
  | @listed directory real names w w' log hreal _ hlist hentries ih =>
    obtain ⟨hnames, hvisits⟩ := ih hw (htask.entries hp hlist)
    have hlog : log ⊆ .resolve directory :: .read ⟨directory, real⟩ :: log :=
      List.subset_cons_of_subset _ (List.subset_cons_self _ _)
    refine ⟨⟨List.mem_cons_self, fun real hreal' => ?_⟩, ?_⟩
    · rw [← Except.ok.inj (hreal.symm.trans hreal')]
      exact hentries.entered_subset List.mem_cons_self
    · rw [visits_resolve, visits_read]
      refine List.forall_mem_cons.mpr ⟨fun names hlist' name hname => ?_, fun visit hvisit => ?_⟩
      · obtain rfl := Except.ok.inj (hlist.symm.trans hlist')
        exact (hnames name (Text.mem_sorted.mpr hname)).mono hlog (List.Subset.refl _)
      · exact (hvisits visit hvisit).mono hlog (List.Subset.refl _)
  | @passed directory name names w w' log hname hrest ih =>
    obtain ⟨hnames, hvisits⟩ := ih (unaskable_pass_of_isOpen hp hw htask) htask.tail
    have hlog : log ⊆ p.calls directory w name ++ log := List.subset_append_right _ _
    rw [visits_calls_append]
    refine ⟨List.forall_mem_cons.mpr ⟨fun hkept => ?_, fun other hother => ?_⟩, fun visit hvisit => ?_⟩
    · have hlooks := (looksAt_eq_keeps hp hw htask).trans hkept
      refine ⟨List.mem_append_left _ ?_, fun hinspect hexcluded => absurd ⟨hlooks, hinspect, hexcluded⟩ hname⟩
      rw [Plan.calls, if_pos hlooks]
      exact List.mem_cons_self
    · exact (hnames other hother).mono hlog (List.Subset.refl _)
    · exact (hvisits visit hvisit).mono hlog (List.Subset.refl _)
  | @deeper directory name names w w' w'' log log' hname hbelow hrest ih ihrest =>
    obtain ⟨hmet, hvisits⟩ := ih hw htask.below
    obtain ⟨hnames, hvisits'⟩ := ihrest (hbelow.unaskable_of_isOpen hp hw htask.below) htask.tail
    have hlog : log ⊆ p.calls directory w name ++ (log ++ log') :=
      List.subset_append_of_subset_right _ (List.subset_append_left _ _)
    have hlog' : log' ⊆ p.calls directory w name ++ (log ++ log') :=
      List.subset_append_of_subset_right _ (List.subset_append_right _ _)
    rw [visits_calls_append, visits_append]
    refine ⟨List.forall_mem_cons.mpr ⟨fun hkept => ⟨List.mem_append_left _ ?_, fun _ _ => ?_⟩, fun other hother => ?_⟩,
      List.forall_mem_append.mpr ⟨fun visit hvisit => ?_, fun visit hvisit => ?_⟩⟩
    · rw [Plan.calls, if_pos hname.looksAt]
      exact List.mem_cons_self
    · exact Met.mono hlog hrest.entered_subset hmet
    · exact (hnames other hother).mono hlog' (List.Subset.refl _)
    · exact (hvisits visit hvisit).mono hlog hrest.entered_subset
    · exact (hvisits' visit hvisit).mono hlog' (List.Subset.refl _)

/-! ## Directories without links -/

/-- Nothing is in the way from the root to a directory, and these are the names that are read in it. -/
inductive Reads (p : Plan) : Route → List Text → Prop
  | root {real : Route} {names : List Text} (hreal : p.volume.realRoute p.root = .ok real)
      (hlist : p.volume.list p.root = .ok names) : Reads p [] names
  | entry {directory real : Route} {names below : List Text} {name : Text} (hdirectory : Reads p directory names)
      (hname : name ∈ names) (hkept : p.keeps (directory ++ [name]) = true)
      (hinspect : p.volume.inspect (p.root ++ (directory ++ [name])) = .ok .directory)
      (hexcluded : name ∉ p.options.excluded) (hreal : p.volume.realRoute (p.root ++ (directory ++ [name])) = .ok real)
      (hlist : p.volume.list (p.root ++ (directory ++ [name])) = .ok below) : Reads p (directory ++ [name]) below

theorem Reads.list (h : Reads p directory names) : p.volume.list (p.root ++ directory) = .ok names := by
  cases h with
  | root _ hlist => rwa [List.append_nil]
  | entry _ _ _ _ _ _ hlist => exact hlist

theorem Reads.exists_root (h : Reads p directory names) : ∃ real, p.volume.realRoute p.root = .ok real := by
  induction h with
  | root hreal _ => exact ⟨_, hreal⟩
  | entry _ _ _ _ _ _ _ ih => exact ih

theorem Reads.isEntryName (h : Reads p directory names) (htree : p.volume.top.IsTree) (hname : name ∈ names) :
    IsEntryName name := by
  obtain ⟨_, entries, hlocate, rfl⟩ := Volume.exists_locate_of_list h.list
  exact (htree.at? (Volume.at?_of_locate hlocate)).2.isEntryName_of_mem hname

theorem Reads.isEntryName_of_mem (h : Reads p directory names) (htree : p.volume.top.IsTree) :
    ∀ name ∈ directory, IsEntryName name := by
  induction h with
  | root => exact List.forall_mem_nil _
  | entry hdirectory hname _ _ _ _ _ ih =>
    exact List.forall_mem_append.mpr ⟨ih, List.forall_mem_singleton.mpr (hdirectory.isEntryName htree hname)⟩

/-- Nothing is in the way to what the task is about. -/
def Task.IsOnWay (p : Plan) : Task → Prop
  | .directory route => ∀ real names, p.volume.realRoute (p.root ++ route) = .ok real →
    p.volume.list (p.root ++ route) = .ok names → Reads p route names
  | .entries directory names => ∃ all, Reads p directory all ∧ names ⊆ all

theorem Task.isOnWay_root (p : Plan) : (Task.directory []).IsOnWay p := by
  intro real names hreal hlist
  rw [List.append_nil] at hreal hlist
  exact .root hreal hlist

theorem Task.IsOnWay.below (h : (Task.entries directory (name :: names)).IsOnWay p)
    (hkept : p.keeps (directory ++ [name]) = true)
    (hinspect : p.volume.inspect (p.root ++ (directory ++ [name])) = .ok .directory)
    (hexcluded : name ∉ p.options.excluded) : (Task.directory (directory ++ [name])).IsOnWay p := by
  obtain ⟨all, hall, hsubset⟩ := h
  intro real below hreal hlist
  exact .entry hall (hsubset List.mem_cons_self) hkept hinspect hexcluded hreal hlist

theorem Task.IsOnWay.tail (h : (Task.entries directory (name :: names)).IsOnWay p) :
    (Task.entries directory names).IsOnWay p := by
  obtain ⟨all, hall, hsubset⟩ := h
  exact ⟨all, hall, fun other hother => hsubset (List.mem_cons_of_mem name hother)⟩

/-- A walk reads nothing that something is in the way to. -/
theorem Ends.reads (h : Ends p task w log w') (hp : p.IsOpen) (hw : w.unaskable = none) (htask : task.IsAskable p)
    (hway : task.IsOnWay p) :
    ∀ visit ∈ visits log, ∀ names, p.volume.list (p.root ++ visit.route) = .ok names → Reads p visit.route names := by
  induction h with
  | unresolved => exact nofun
  | reentered => exact nofun
  | done => exact nofun
  | unread hreal _ _ => exact List.forall_mem_singleton.mpr fun names hlist => hway _ names hreal hlist
  | listed hreal _ hlist _ ih =>
    have hread := hway _ _ hreal hlist
    rw [visits_resolve, visits_read]
    refine List.forall_mem_cons.mpr ⟨fun names hlist' => hway _ names hreal hlist', ?_⟩
    exact ih hw (htask.entries hp hlist) ⟨_, hread, fun name hname => Text.mem_sorted.mp hname⟩
  | passed _ _ ih =>
    rw [visits_calls_append]
    exact ih (unaskable_pass_of_isOpen hp hw htask) htask.tail hway.tail
  | deeper hname hbelow _ ih ihrest =>
    have hkept := (looksAt_eq_keeps hp hw htask).symm.trans hname.looksAt
    rw [visits_calls_append, visits_append]
    refine List.forall_mem_append.mpr ⟨?_, ?_⟩
    · exact ih hw htask.below (hway.below hkept hname.isDirectory hname.notExcluded)
    · exact ihrest (hbelow.unaskable_of_isOpen hp hw htask.below) htask.tail hway.tail

/-- A whole walk, whatever its rules are and whatever fails, through a tree without links. -/
structure IsStraight (p : Plan) (log : List Call) (w : Walk) : Prop where
  plan : p.IsOpen
  tree : p.volume.top.IsTree
  links : IsLinkFree p.volume p.root
  ends : Ends p (.directory []) {} log w

namespace IsStraight

variable (h : IsStraight p log w)

include h

/-- Without links, a directory that was entered was entered by its own route. -/
theorem exists_visit_of_entered (hroot : p.volume.realRoute p.root = .ok real)
    (hnames : ∀ name ∈ route, IsEntryName name) {below : Route}
    (hbelow : p.volume.realRoute (p.root ++ route) = .ok below) (hentered : below ∈ w.entered) :
    ∃ visit ∈ visits log, visit.route = route := by
  rw [h.ends.entered_eq, List.append_nil, List.mem_reverse, List.mem_map] at hentered
  obtain ⟨visit, hvisit, rfl⟩ := hentered
  have hsound := h.ends.isSound h.tree (Task.isReady_root p).reached visit hvisit
  obtain ⟨rest, hroute, hrest⟩ := hsound.names
  have hroute' : ∀ name ∈ visit.route, IsEntryName name := by
    rw [hroute]
    exact fun name hname => (hrest name hname).1
  have heq := h.links.realRoute_eq hroot hroute' hsound.real
  rw [h.links.realRoute_eq hroot hnames hbelow] at heq
  exact ⟨visit, hvisit, (List.append_cancel_left heq).symm⟩

/-- A directory is read when nothing is in the way to it. -/
theorem exists_visit (hread : Reads p directory names) : ∃ visit ∈ visits log, visit.route = directory := by
  obtain ⟨hstart, hvisits⟩ := h.ends.attended h.plan rfl (.start p)
  obtain ⟨real, hroot⟩ := hread.exists_root
  induction hread with
  | root hreal _ =>
    rw [← List.append_nil p.root] at hreal
    exact h.exists_visit_of_entered hroot (List.forall_mem_nil _) hreal (hstart.2 _ hreal)
  | entry hdirectory hname hkept hinspect hexcluded hreal hlist ih =>
    obtain ⟨visit, hvisit, rfl⟩ := ih
    have hmet := (hvisits visit hvisit _ hdirectory.list _ hname hkept).2 hinspect hexcluded
    have hread := Reads.entry hdirectory hname hkept hinspect hexcluded hreal hlist
    exact h.exists_visit_of_entered hroot (hread.isEntryName_of_mem h.tree) hreal (hmet.2 _ hreal)

/-- A file is found when it is admitted in a directory that nothing is in the way to. -/
theorem mem_found_iff : route ∈ w.found ↔
    ∃ directory names name, Reads p directory names ∧ name ∈ names ∧ p.admits directory name = true ∧
      route = directory ++ [name] := by
  rw [h.ends.mem_found_iff h.plan rfl (.start p)]
  constructor
  · rintro (hnone | hnone | ⟨visit, hvisit, names, name, hlist, hname, hadmits, rfl⟩)
    · cases hnone
    · cases hnone
    · have hread := h.ends.reads h.plan rfl (.start p) (Task.isOnWay_root p) visit hvisit names hlist
      exact ⟨visit.route, names, name, hread, hname, hadmits, rfl⟩
  · rintro ⟨directory, names, name, hread, hname, hadmits, rfl⟩
    obtain ⟨visit, hvisit, rfl⟩ := h.exists_visit hread
    exact .inr (.inr ⟨visit, hvisit, names, name, hread.list, hname, hadmits, rfl⟩)

end IsStraight

end CCompletion.Scan
