import CCompletion.Proofs.Text.Order
import CCompletion.Proofs.Volume.Access
import CCompletion.Scan.Walk

/-!
# Walks

A walk told by its steps, with no bound on its depth and with a log of its calls. As each directory that is read is
another real one, every walk ends, and the bound that it runs with is never reached.
-/

namespace CCompletion.Scan

variable {p : Plan} {w w' : Walk} {directory real : Route} {name : Text} {names : List Text}

/-! ## Calls -/

/-- A directory that is read: the route by which the walk came to it, and its real one. -/
structure Visit where
  route : Route
  real : Route

/-- What a walk asks its volume. -/
inductive Call where
  | resolve (route : Route)
  | read (visit : Visit)
  | inspect (route : Route)

def Call.visit? : Call → Option Visit
  | read visit => some visit
  | _ => none

def Call.Succeeds (p : Plan) : Call → Prop
  | resolve route => ∃ real, p.volume.realRoute (p.root ++ route) = .ok real
  | read visit => ∃ names, p.volume.list (p.root ++ visit.route) = .ok names
  | inspect route => ∃ info, p.volume.inspect (p.root ++ route) = .ok info

/-- The directories that are read, in the order of the calls. -/
def visits (calls : List Call) : List Visit := calls.filterMap Call.visit?

/-! ## Steps -/

/-- What a walk is asked to go through: a directory, or some of its entries. -/
inductive Task where
  | directory (route : Route)
  | entries (directory : Route) (names : List Text)

namespace Walk

def enter (real : Route) (w : Walk) : Walk := { w with entered := real :: w.entered }

/-- Takes in an entry without entering it. -/
def pass (p : Plan) (directory : Route) (w : Walk) (name : Text) : Walk :=
  addEntry p (fun _ w => w) directory w name

end Walk

namespace Plan

/-- Is there more to do, and is the entry not ignored? -/
def looksAt (p : Plan) (directory : Route) (w : Walk) (name : Text) : Bool :=
  !p.isOver w && !(p.rules.isSome && Ignore.isUnaskable (directory ++ [name])) &&
    !p.rules.any (Ignore.ignores · (directory ++ [name]))

/-- The call about an entry. -/
def calls (p : Plan) (directory : Route) (w : Walk) (name : Text) : List Call :=
  if p.looksAt directory w name then [.inspect (directory ++ [name])] else []

/-- An entry is entered. -/
structure Enters (p : Plan) (directory : Route) (w : Walk) (name : Text) : Prop where
  looksAt : p.looksAt directory w name = true
  isDirectory : p.volume.inspect (p.root ++ (directory ++ [name])) = .ok .directory
  notExcluded : name ∉ p.options.excluded

/-- Is the entry a source file to take in? -/
def takes (p : Plan) (directory : Route) (name : Text) : Bool :=
  match p.volume.inspect (p.root ++ (directory ++ [name])) with
  | .ok (.file size) => p.isSource name && (p.isTooLarge size).isNone
  | _ => false

/-- What is found when an entry is looked at. -/
def filesAt (p : Plan) (directory : Route) (name : Text) : List Route :=
  if p.takes directory name then [directory ++ [name]] else []

/-- What is warned of when an entry is looked at. -/
def warningsAt (p : Plan) (directory : Route) (name : Text) : List Warning :=
  match p.volume.inspect (p.root ++ (directory ++ [name])) with
  | .error _ => [.entryUnknown (p.path (directory ++ [name]))]
  | .ok .directory => []
  | .ok (.file size) =>
    if p.isSource name then ((p.isTooLarge size).map (.fileTooLarge (p.path (directory ++ [name])))).toList else []

end Plan

theorem addEntry_of_looksAt (enter : Route → Walk → Walk) (h : p.looksAt directory w name = true) :
    w.addEntry p enter directory name =
      match p.volume.inspect (p.root ++ (directory ++ [name])) with
      | .error _ => w.warn (.entryUnknown (p.path (directory ++ [name])))
      | .ok .directory => if p.options.excluded.contains name then w else enter (directory ++ [name]) w
      | .ok (.file size) => w.addFile p (directory ++ [name]) name size := by
  simp only [Plan.looksAt, Bool.and_eq_true, Bool.not_eq_true'] at h
  obtain ⟨⟨hover, haskable⟩, hkept⟩ := h
  exact (if_neg (Bool.not_eq_true _ ▸ hover)).trans
    ((if_neg (Bool.not_eq_true _ ▸ haskable)).trans (if_neg (Bool.not_eq_true _ ▸ hkept)))

/-- An entry that is not looked at changes nothing but what the rules could not be asked about. -/
theorem addEntry_of_not_looksAt (h : p.looksAt directory w name = false) :
    ∃ unaskable, ∀ enter, w.addEntry p enter directory name = { w with unaskable := unaskable } := by
  simp only [Walk.addEntry]
  by_cases hover : p.isOver w = true
  · exact ⟨w.unaskable, fun enter => if_pos hover⟩
  by_cases haskable : (p.rules.isSome && Ignore.isUnaskable (directory ++ [name])) = true
  · exact ⟨some (directory ++ [name]), fun enter => by simp only [if_neg hover, if_pos haskable]⟩
  have hignored : p.rules.any (Ignore.ignores · (directory ++ [name])) = true := by
    rw [Bool.not_eq_true] at hover haskable
    rw [Plan.looksAt, hover, haskable] at h
    simpa using h
  exact ⟨w.unaskable, fun enter => by simp only [if_neg hover, if_neg haskable, if_pos hignored]⟩

theorem addEntry_of_enters (enter : Route → Walk → Walk) (h : p.Enters directory w name) :
    w.addEntry p enter directory name = enter (directory ++ [name]) w := by
  have hexcluded : ¬p.options.excluded.contains name = true := mt List.contains_iff_mem.mp h.notExcluded
  simp only [addEntry_of_looksAt enter h.looksAt, h.isDirectory, if_neg hexcluded]

theorem addEntry_of_not_enters (enter : Route → Walk → Walk) (h : ¬p.Enters directory w name) :
    w.addEntry p enter directory name = w.pass p directory name := by
  cases hlooks : p.looksAt directory w name with
  | false =>
    obtain ⟨unaskable, hsame⟩ := addEntry_of_not_looksAt hlooks
    rw [Walk.pass, hsame, hsame]
  | true =>
    rw [Walk.pass, addEntry_of_looksAt enter hlooks, addEntry_of_looksAt _ hlooks]
    cases hinspect : p.volume.inspect (p.root ++ (directory ++ [name])) with
    | error e => rfl
    | ok info =>
      cases info with
      | file size => rfl
      | directory =>
        have hexcluded : p.options.excluded.contains name = true := by
          by_contra hnot
          exact h ⟨hlooks, hinspect, mt List.contains_iff_mem.mpr hnot⟩
        simp only [if_pos hexcluded]

theorem takes_of_enters (h : p.Enters directory w name) : p.takes directory name = false := by
  rw [Plan.takes, h.isDirectory]

theorem pass_of_looksAt (h : p.looksAt directory w name = true) : w.pass p directory name =
    { w with found := w.found ++ p.filesAt directory name, warnings := w.warnings ++ p.warningsAt directory name } := by
  rw [Walk.pass, addEntry_of_looksAt _ h, Plan.filesAt, Plan.takes, Plan.warningsAt]
  cases p.volume.inspect (p.root ++ (directory ++ [name])) with
  | error e => simp [Walk.warn]
  | ok info =>
    cases info with
    | directory => simp
    | file size =>
      cases hsource : p.isSource name with
      | false => simp [Walk.addFile, hsource]
      | true => cases hlarge : p.isTooLarge size <;> simp [Walk.addFile, Walk.warn, hsource, hlarge]

theorem pass_of_not_looksAt (h : p.looksAt directory w name = false) :
    ∃ unaskable, w.pass p directory name = { w with unaskable := unaskable } :=
  (addEntry_of_not_looksAt h).imp fun _ hsame => hsame _

/-- The walk that starts with a task and `w` ends with `w'`, and makes the calls of the log on its way. -/
inductive Ends (p : Plan) : Task → Walk → List Call → Walk → Prop
  | unresolved {directory : Route} {w : Walk} {e : AccessError}
      (hreal : p.volume.realRoute (p.root ++ directory) = .error e) :
      Ends p (.directory directory) w [.resolve directory] (w.warn (.directoryUnresolved (p.path directory)))
  | reentered {directory real : Route} {w : Walk} (hreal : p.volume.realRoute (p.root ++ directory) = .ok real)
      (hentered : real ∈ w.entered) : Ends p (.directory directory) w [.resolve directory] w
  | unread {directory real : Route} {w : Walk} {e : AccessError}
      (hreal : p.volume.realRoute (p.root ++ directory) = .ok real) (hentered : real ∉ w.entered)
      (hlist : p.volume.list (p.root ++ directory) = .error e) :
      Ends p (.directory directory) w [.resolve directory, .read ⟨directory, real⟩]
        ((w.enter real).warn (.directoryUnread (p.path directory)))
  | listed {directory real : Route} {names : List Text} {w w' : Walk} {log : List Call}
      (hreal : p.volume.realRoute (p.root ++ directory) = .ok real) (hentered : real ∉ w.entered)
      (hlist : p.volume.list (p.root ++ directory) = .ok names)
      (hentries : Ends p (.entries directory (Text.sorted names)) (w.enter real) log w') :
      Ends p (.directory directory) w (.resolve directory :: .read ⟨directory, real⟩ :: log) w'
  | done {directory : Route} {w : Walk} : Ends p (.entries directory []) w [] w
  | passed {directory : Route} {name : Text} {names : List Text} {w w' : Walk} {log : List Call}
      (hname : ¬p.Enters directory w name) (hrest : Ends p (.entries directory names) (w.pass p directory name) log w') :
      Ends p (.entries directory (name :: names)) w (p.calls directory w name ++ log) w'
  | deeper {directory : Route} {name : Text} {names : List Text} {w w' w'' : Walk} {log log' : List Call}
      (hname : p.Enters directory w name) (hbelow : Ends p (.directory (directory ++ [name])) w log w')
      (hrest : Ends p (.entries directory names) w' log' w'') :
      Ends p (.entries directory (name :: names)) w (p.calls directory w name ++ (log ++ log')) w''

/-- What a walk reads and where it ends is determined by its start. -/
theorem Ends.unique {task : Task} {log log' : List Call} {w'' : Walk} (h : Ends p task w log w')
    (h' : Ends p task w log' w'') : log = log' ∧ w' = w'' := by
  induction h generalizing log' w'' with
  | unresolved hreal =>
    cases h' with
    | unresolved => exact ⟨rfl, rfl⟩
    | reentered hreal' _ => cases hreal.symm.trans hreal'
    | unread hreal' _ _ => cases hreal.symm.trans hreal'
    | listed hreal' _ _ _ => cases hreal.symm.trans hreal'
  | reentered hreal hentered =>
    cases h' with
    | unresolved hreal' => cases hreal.symm.trans hreal'
    | reentered => exact ⟨rfl, rfl⟩
    | unread hreal' hentered' _ =>
      cases hreal.symm.trans hreal'
      exact absurd hentered hentered'
    | listed hreal' hentered' _ _ =>
      cases hreal.symm.trans hreal'
      exact absurd hentered hentered'
  | unread hreal hentered hlist =>
    cases h' with
    | unresolved hreal' => cases hreal.symm.trans hreal'
    | reentered hreal' hentered' =>
      cases hreal.symm.trans hreal'
      exact absurd hentered' hentered
    | unread hreal' _ _ =>
      cases hreal.symm.trans hreal'
      exact ⟨rfl, rfl⟩
    | listed _ _ hlist' _ => cases hlist.symm.trans hlist'
  | listed hreal hentered hlist _ ih =>
    cases h' with
    | unresolved hreal' => cases hreal.symm.trans hreal'
    | reentered hreal' hentered' =>
      cases hreal.symm.trans hreal'
      exact absurd hentered' hentered
    | unread _ _ hlist' => cases hlist.symm.trans hlist'
    | listed hreal' _ hlist' hentries' =>
      cases hreal.symm.trans hreal'
      cases hlist.symm.trans hlist'
      obtain ⟨rfl, rfl⟩ := ih hentries'
      exact ⟨rfl, rfl⟩
  | done =>
    cases h' with
    | done => exact ⟨rfl, rfl⟩
  | passed hname _ ih =>
    cases h' with
    | passed _ hrest' =>
      obtain ⟨rfl, rfl⟩ := ih hrest'
      exact ⟨rfl, rfl⟩
    | deeper hname' _ _ => exact absurd hname' hname
  | deeper hname _ _ ih ihrest =>
    cases h' with
    | passed hname' _ => exact absurd hname hname'
    | deeper _ hbelow' hrest' =>
      obtain ⟨rfl, rfl⟩ := ih hbelow'
      obtain ⟨rfl, rfl⟩ := ihrest hrest'
      exact ⟨rfl, rfl⟩

/-! ## What is entered -/

@[simp] theorem visits_nil : visits [] = [] := rfl

@[simp] theorem visits_resolve (route : Route) (calls : List Call) : visits (.resolve route :: calls) = visits calls := rfl

@[simp] theorem visits_read (visit : Visit) (calls : List Call) : visits (.read visit :: calls) = visit :: visits calls :=
  rfl

@[simp] theorem visits_append (calls calls' : List Call) : visits (calls ++ calls') = visits calls ++ visits calls' :=
  List.filterMap_append

@[simp] theorem visits_calls_append (calls : List Call) : visits (p.calls directory w name ++ calls) = visits calls := by
  rw [Plan.calls]
  split <;> rfl

theorem entered_pass : (w.pass p directory name).entered = w.entered := by
  cases hlooks : p.looksAt directory w name with
  | false =>
    obtain ⟨unaskable, hpass⟩ := pass_of_not_looksAt hlooks
    rw [hpass]
  | true => rw [pass_of_looksAt hlooks]

variable {task : Task} {log : List Call}

/-- The directories that are read are the ones that the walk enters. -/
theorem Ends.entered_eq (h : Ends p task w log w') : w'.entered = ((visits log).map (·.real)).reverse ++ w.entered := by
  induction h with
  | unresolved => rfl
  | reentered => rfl
  | unread => rfl
  | done => rfl
  | listed _ _ _ _ ih =>
    rw [ih, visits_resolve, visits_read, List.map_cons, List.reverse_cons, List.append_assoc]
    rfl
  | passed _ _ ih => rw [ih, entered_pass, visits_calls_append]
  | deeper _ _ _ ih ihrest =>
    rw [ihrest, ih, visits_calls_append, visits_append, List.map_append, List.reverse_append, List.append_assoc]

theorem Ends.entered_subset (h : Ends p task w log w') : w.entered ⊆ w'.entered := by
  rw [h.entered_eq]
  exact List.subset_append_right _ _

theorem Ends.nodup_entered (h : Ends p task w log w') (hw : w.entered.Nodup) : w'.entered.Nodup := by
  induction h with
  | unresolved => exact hw
  | reentered => exact hw
  | unread _ hentered _ => exact List.nodup_cons.mpr ⟨hentered, hw⟩
  | done => exact hw
  | listed _ hentered _ _ ih => exact ih (List.nodup_cons.mpr ⟨hentered, hw⟩)
  | passed _ _ ih => exact ih (by rwa [entered_pass])
  | deeper _ _ _ ih ihrest => exact ihrest (ih hw)

/-- No real directory is read twice. -/
theorem Ends.nodup_reals (h : Ends p task {} log w') : ((visits log).map (·.real)).Nodup := by
  have hentered := h.nodup_entered List.nodup_nil
  rw [h.entered_eq, List.append_nil] at hentered
  exact List.nodup_reverse.mp hentered

/-! ## Warnings -/

/-- There are no warnings but those of files that are too large. -/
def Unfailing (warnings : List Warning) : Prop :=
  ∀ warning ∈ warnings, ∃ path kilobytes, warning = .fileTooLarge path kilobytes

theorem Unfailing.mono {warnings warnings' : List Warning} (h : Unfailing warnings') (hsubset : warnings ⊆ warnings') :
    Unfailing warnings := fun warning hwarning => h warning (hsubset hwarning)

theorem not_unfailing_warn {warning : Warning} (h : ∀ path kilobytes, warning ≠ .fileTooLarge path kilobytes) :
    ¬Unfailing (w.warn warning).warnings := by
  intro hall
  obtain ⟨path, kilobytes, heq⟩ := hall warning (List.mem_append_right _ List.mem_cons_self)
  exact h path kilobytes heq

theorem warnings_subset_warn (warning : Warning) : w.warnings ⊆ (w.warn warning).warnings :=
  List.subset_append_left _ _

theorem warnings_subset_pass : w.warnings ⊆ (w.pass p directory name).warnings := by
  cases hlooks : p.looksAt directory w name with
  | false =>
    obtain ⟨unaskable, hpass⟩ := pass_of_not_looksAt hlooks
    rw [hpass]
    exact List.Subset.refl _
  | true =>
    rw [pass_of_looksAt hlooks]
    exact List.subset_append_left _ _

theorem Ends.warnings_subset (h : Ends p task w log w') : w.warnings ⊆ w'.warnings := by
  induction h with
  | unresolved => exact warnings_subset_warn _
  | reentered => exact List.Subset.refl _
  | unread => exact warnings_subset_warn _
  | done => exact List.Subset.refl _
  | listed _ _ _ _ ih => exact ih
  | passed _ _ ih => exact List.Subset.trans warnings_subset_pass ih
  | deeper _ _ _ ih ihrest => exact List.Subset.trans ih ihrest

theorem succeeds_of_pass (h : Unfailing (w.pass p directory name).warnings) :
    ∀ call ∈ p.calls directory w name, call.Succeeds p := by
  rw [Plan.calls]
  cases hlooks : p.looksAt directory w name with
  | false => exact nofun
  | true =>
    refine List.forall_mem_singleton.mpr ?_
    rw [pass_of_looksAt hlooks, Plan.warningsAt] at h
    cases hinspect : p.volume.inspect (p.root ++ (directory ++ [name])) with
    | error e =>
      rw [hinspect] at h
      exact absurd h (not_unfailing_warn nofun)
    | ok info => exact ⟨info, hinspect⟩

/-- A call that fails is warned of. -/
theorem Ends.succeeds (h : Ends p task w log w') (hwarnings : Unfailing w'.warnings) :
    ∀ call ∈ log, call.Succeeds p := by
  induction h with
  | unresolved => exact absurd hwarnings (not_unfailing_warn nofun)
  | reentered hreal _ => exact List.forall_mem_singleton.mpr ⟨_, hreal⟩
  | unread => exact absurd hwarnings (not_unfailing_warn nofun)
  | done => exact nofun
  | listed hreal _ hlist _ ih =>
    exact List.forall_mem_cons.mpr ⟨⟨_, hreal⟩, List.forall_mem_cons.mpr ⟨⟨_, hlist⟩, ih hwarnings⟩⟩
  | passed _ hrest ih =>
    exact List.forall_mem_append.mpr ⟨succeeds_of_pass (hwarnings.mono hrest.warnings_subset), ih hwarnings⟩
  | deeper hname _ hrest ih ihrest =>
    have hbelow := ih (hwarnings.mono hrest.warnings_subset)
    refine List.forall_mem_append.mpr ⟨?_, List.forall_mem_append.mpr ⟨hbelow, ihrest hwarnings⟩⟩
    rw [Plan.calls, if_pos hname.looksAt]
    exact List.forall_mem_singleton.mpr ⟨_, hname.isDirectory⟩

/-! ## The end of a walk -/

/-- The routes to the directories that have not been entered. -/
def unentered (p : Plan) (w : Walk) : List Route :=
  p.volume.top.directoryRoutes.filter fun r => !w.entered.contains r

theorem length_unentered_mono (h : w.entered ⊆ w'.entered) : (unentered p w').length ≤ (unentered p w).length := by
  refine (List.monotone_filter_right _ fun r hr => ?_).length_le
  have hnot : r ∉ w'.entered := by simpa using hr
  simpa using fun hmem => hnot (h hmem)

theorem length_unentered_enter (hreal : real ∈ p.volume.top.directoryRoutes) (hentered : real ∉ w.entered) :
    (unentered p (w.enter real)).length < (unentered p w).length := by
  have hfilter : unentered p (w.enter real) = (unentered p w).filter fun r => r ≠ real := by
    rw [unentered, unentered, List.filter_filter]
    exact List.filter_congr fun r _ => by simp [Walk.enter]
  rw [hfilter, List.length_filter_lt_length_iff_exists]
  exact ⟨real, List.mem_filter.mpr ⟨hreal, by simpa using hentered⟩, by simp⟩

theorem length_unentered_lt (p : Plan) (w : Walk) : (unentered p w).length < depthLimit p.volume := by
  have hle := List.length_filter_le (fun r => !w.entered.contains r) p.volume.top.directoryRoutes
  rw [Node.length_directoryRoutes] at hle
  exact Nat.lt_succ_of_le hle

/-- Going through entries ends when going through each directory among them does. -/
theorem exists_ends_foldl {enter : Route → Walk → Walk} {n : Nat}
    (henter : ∀ route w, (unentered p w).length < n → ∃ log, Ends p (.directory route) w log (enter route w))
    (hn : (unentered p w).length < n) :
    ∃ log, Ends p (.entries directory names) w log (names.foldl (Walk.addEntry p enter directory) w) := by
  induction names generalizing w with
  | nil => exact ⟨[], .done⟩
  | cons name names ih =>
    rw [List.foldl_cons]
    by_cases hname : p.Enters directory w name
    · obtain ⟨log, hbelow⟩ := henter (directory ++ [name]) w hn
      -- what has been entered stays so, and no more is left for the entries that follow
      obtain ⟨log', hrest⟩ := ih (Nat.lt_of_le_of_lt (length_unentered_mono hbelow.entered_subset) hn)
      rw [addEntry_of_enters enter hname]
      exact ⟨_, .deeper hname hbelow hrest⟩
    · obtain ⟨log, hrest⟩ := ih (w := w.pass p directory name) (by
        rw [unentered, entered_pass]
        exact hn)
      rw [addEntry_of_not_enters enter hname]
      exact ⟨_, .passed hname hrest⟩

/-- A walk whose bound is above the number of directories that are left never reaches it. -/
theorem exists_ends_through {depth : Nat} (hdepth : (unentered p w).length < depth) :
    ∃ log, Ends p (.directory directory) w log (Walk.through p depth directory w) := by
  induction depth generalizing directory w with
  | zero => exact absurd hdepth (Nat.not_lt_zero _)
  | succ depth ih =>
    rw [Walk.through]
    cases hreal : p.volume.realRoute (p.root ++ directory) with
    | error e => exact ⟨_, .unresolved hreal⟩
    | ok real =>
      by_cases hentered : real ∈ w.entered
      · simp only [if_pos hentered]
        exact ⟨_, .reentered hreal hentered⟩
      simp only [if_neg hentered]
      cases hlist : p.volume.list (p.root ++ directory) with
      | error e => exact ⟨_, .unread hreal hentered hlist⟩
      | ok names =>
        -- a directory that is read is one of the tree, and was left until now
        have hmem : real ∈ p.volume.top.directoryRoutes := by
          obtain ⟨entries, hlocate, _⟩ := Volume.locate_of_list hreal hlist
          exact Node.mem_directoryRoutes (Volume.at?_of_locate hlocate)
        have hleft : (unentered p (w.enter real)).length < depth := by
          have := length_unentered_enter hmem hentered
          omega
        obtain ⟨log, hlog⟩ := exists_ends_foldl (fun route w hw => ih hw) hleft
        exact ⟨_, .listed hreal hentered hlist hlog⟩

/-- The bound on the depth of a scan is never reached. -/
theorem exists_ends (p : Plan) {depth : Nat} (hdepth : depthLimit p.volume ≤ depth) :
    ∃ log, Ends p (.directory []) {} log (Walk.through p depth [] {}) :=
  exists_ends_through (Nat.lt_of_lt_of_le (length_unentered_lt p {}) hdepth)

theorem succeeds_of_unfailing (h : Unfailing (Walk.through p (depthLimit p.volume) [] {}).warnings) {log : List Call}
    (hends : Ends p (.directory []) {} log w) : ∀ call ∈ log, call.Succeeds p := by
  obtain ⟨log', hends'⟩ := exists_ends p (Nat.le_refl _)
  refine hends.succeeds ?_
  rwa [(hends.unique hends').2]

end CCompletion.Scan
