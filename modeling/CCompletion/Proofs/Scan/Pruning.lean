import CCompletion.Proofs.Ignore.Directory
import CCompletion.Proofs.Scan.Files

/-!
# Walks that follow ignore files

Where there are no links, a walk that follows ignore files comes by the files of the walk that does not, in the same
order, but for those on whose way something is ignored. A file that is not ignored is lost just when one of its
directories is ignored without its slash.
-/

namespace CCompletion.Scan

variable {v : Volume} {options : ScanOptions} {root : Route} {p : Plan} {w w' w₁ : Walk} {directory real route : Route}
  {name : Text} {names : List Text} {task : Task} {log : List Call} {rules : List Ignore.Rule}

/-! ## Trees without links -/

/-- No link stands below the root. -/
def IsLinkFree (v : Volume) (root : Route) : Prop := ∀ place, v.locate root = .ok place → place.2.IsLinkFree

/-- Without links, the real routes below the root are those of the walk. -/
theorem IsLinkFree.realRoute_eq (h : IsLinkFree v root) (hroot : v.realRoute root = .ok real)
    (hnames : ∀ name ∈ route, IsEntryName name) {found : Route} (hfound : v.realRoute (root ++ route) = .ok found) :
    found = real ++ route := by
  obtain ⟨node, hnode⟩ := Volume.exists_locate_of_realRoute hroot
  obtain ⟨end', hend⟩ := Volume.exists_locate_of_realRoute hfound
  obtain ⟨k, _, hleads⟩ := Volume.locate_eq_ok_iff.mp hend
  obtain ⟨i, j, mid, _, hfirst, hlast⟩ := hleads.exists_of_append
  obtain ⟨i', _, hreal⟩ := Volume.locate_eq_ok_iff.mp hnode
  obtain rfl := hfirst.unique hreal
  apply hlast.eq_append hnames
  intro below target
  rw [Node.at?_append, Volume.at?_of_locate hnode]
  exact (h _ hnode).at?_ne_link below target

/-! ## What a task covers -/

/-- The routes that a walk may come by on its way through a task. -/
def Task.Covers : Task → Route → Prop
  | .directory directory, route => directory <+: route
  | .entries directory names, route => ∃ name ∈ names, directory ++ [name] <+: route

theorem Task.covers_below (h : (Task.directory (directory ++ [name])).Covers route) :
    (Task.entries directory (name :: names)).Covers route := ⟨name, List.mem_cons_self, h⟩

theorem Task.covers_tail (h : (Task.entries directory names).Covers route) :
    (Task.entries directory (name :: names)).Covers route := by
  obtain ⟨other, hother, hstart⟩ := h
  exact ⟨other, List.mem_cons_of_mem name hother, hstart⟩

theorem Task.covers_of_entries (h : (Task.entries directory names).Covers route) :
    (Task.directory directory).Covers route := by
  obtain ⟨name, _, hstart⟩ := h
  exact (List.prefix_append directory [name]).trans hstart

theorem exists_found_pass (p : Plan) (directory : Route) (w : Walk) (name : Text) :
    ∃ found, (w.pass p directory name).found = w.found ++ found ∧ ∀ route ∈ found, route = directory ++ [name] := by
  cases hlooks : p.looksAt directory w name with
  | false =>
    obtain ⟨unaskable, hpass⟩ := pass_of_not_looksAt hlooks
    rw [hpass]
    exact ⟨[], (List.append_nil _).symm, nofun⟩
  | true =>
    rw [pass_of_looksAt hlooks]
    refine ⟨p.filesAt directory name, rfl, fun route hroute => ?_⟩
    rw [Plan.filesAt] at hroute
    split at hroute
    · exact List.mem_singleton.mp hroute
    · cases hroute

/-- A walk finds only what its task covers. -/
theorem Ends.exists_found (h : Ends p task w log w') :
    ∃ found, w'.found = w.found ++ found ∧ ∀ route ∈ found, task.Covers route := by
  induction h with
  | unresolved => exact ⟨[], (List.append_nil _).symm, nofun⟩
  | reentered => exact ⟨[], (List.append_nil _).symm, nofun⟩
  | unread => exact ⟨[], (List.append_nil _).symm, nofun⟩
  | done => exact ⟨[], (List.append_nil _).symm, nofun⟩
  | listed _ _ _ _ ih =>
    obtain ⟨found, hfound, hcovers⟩ := ih
    exact ⟨found, hfound, fun route hroute => Task.covers_of_entries (hcovers route hroute)⟩
  | @passed directory name names w w' log _ _ ih =>
    obtain ⟨first, hfirst, hown⟩ := exists_found_pass p directory w name
    obtain ⟨found, hfound, hcovers⟩ := ih
    refine ⟨first ++ found, by rw [hfound, hfirst, List.append_assoc], List.forall_mem_append.mpr ⟨?_, ?_⟩⟩
    · exact fun route hroute => Task.covers_below (hown route hroute ▸ List.prefix_refl _)
    · exact fun route hroute => Task.covers_tail (hcovers route hroute)
  | deeper _ _ _ ih ihrest =>
    obtain ⟨first, hfirst, hbelow⟩ := ih
    obtain ⟨found, hfound, hcovers⟩ := ihrest
    refine ⟨first ++ found, by rw [hfound, hfirst, List.append_assoc], List.forall_mem_append.mpr ⟨?_, ?_⟩⟩
    · exact fun route hroute => Task.covers_below (hbelow route hroute)
    · exact fun route hroute => Task.covers_tail (hcovers route hroute)

/-- A walk reads only what its task covers. -/
theorem Ends.visits_covered (h : Ends p task w log w') : ∀ visit ∈ visits log, task.Covers visit.route := by
  induction h with
  | unresolved => exact nofun
  | reentered => exact nofun
  | unread => exact List.forall_mem_singleton.mpr (List.prefix_refl _)
  | done => exact nofun
  | listed _ _ _ _ ih =>
    rw [visits_resolve, visits_read]
    exact List.forall_mem_cons.mpr ⟨List.prefix_refl _, fun visit hvisit => Task.covers_of_entries (ih visit hvisit)⟩
  | passed _ _ ih =>
    rw [visits_calls_append]
    exact fun visit hvisit => Task.covers_tail (ih visit hvisit)
  | deeper _ _ _ ih ihrest =>
    rw [visits_calls_append, visits_append]
    refine List.forall_mem_append.mpr ⟨?_, ?_⟩
    · exact fun visit hvisit => Task.covers_below (ih visit hvisit)
    · exact fun visit hvisit => Task.covers_tail (ihrest visit hvisit)

/-! ## Tasks of a walk -/

/-- A tree without links, about whose entries all rules can be asked, and a walk through it that has no rules. -/
structure IsFollowable (p : Plan) (real : Route) : Prop where
  plain : p.IsPlain
  tree : p.volume.top.IsTree
  links : IsLinkFree p.volume p.root
  root : p.volume.realRoute p.root = .ok real
  askable : ∀ names, p.volume.list p.root = .ok names → ∀ name ∈ names, Ignore.isUnaskable [name] = false

/-- The entries of a task have names of their own, and the rules can be asked about them. -/
def Task.IsOrderly : Task → Prop
  | .directory directory => Ignore.isUnaskable directory = false
  | .entries directory names => names.Nodup ∧ ∀ name ∈ names, Ignore.isUnaskable (directory ++ [name]) = false

structure Task.IsReady (p : Plan) (task : Task) : Prop where
  reached : task.IsReached p
  names : ∀ name ∈ task.start, IsEntryName name
  orderly : task.IsOrderly

theorem Task.isReady_root (p : Plan) : (Task.directory []).IsReady p := by
  refine ⟨fun below entries hroot => ?_, nofun, rfl⟩
  rw [List.append_nil] at hroot
  exact .root hroot

theorem Task.IsReady.tail (hready : (Task.entries directory (name :: names)).IsReady p) :
    (Task.entries directory names).IsReady p :=
  ⟨hready.reached.tail, hready.names, hready.orderly.1.of_cons,
    fun other hother => hready.orderly.2 other (List.mem_cons_of_mem name hother)⟩

/-- What a walk enters lies at the routes that its task covers. -/
theorem Ends.exists_covered (hends : Ends p task w log w') (htree : p.volume.top.IsTree)
    (hlinks : IsLinkFree p.volume p.root) (hroot : p.volume.realRoute p.root = .ok real) (hready : task.IsReady p) :
    ∀ below ∈ w'.entered, below ∈ w.entered ∨ ∃ route, task.Covers route ∧ below = real ++ route := by
  intro below hbelow
  rw [hends.entered_eq, List.mem_append, List.mem_reverse, List.mem_map] at hbelow
  obtain ⟨visit, hvisit, rfl⟩ | hbelow := hbelow
  · have hsound := hends.isSound htree hready.reached visit hvisit
    obtain ⟨rest, hroute, hrest⟩ := hsound.names
    have hnames : ∀ name ∈ visit.route, IsEntryName name := by
      rw [hroute]
      exact List.forall_mem_append.mpr ⟨hready.names, fun name hname => (hrest name hname).1⟩
    exact .inr ⟨visit.route, hends.visits_covered visit hvisit, hlinks.realRoute_eq hroot hnames hsound.real⟩
  · exact .inl hbelow

namespace IsFollowable

variable (h : IsFollowable p real)

include h

theorem isReady_entries (hready : (Task.directory directory).IsReady p)
    (hlist : p.volume.list (p.root ++ directory) = .ok names) :
    (Task.entries directory (Text.sorted names)).IsReady p := by
  obtain ⟨below, entries, hlocate, rfl⟩ := Volume.exists_locate_of_list hlist
  have hat := Volume.at?_of_locate hlocate
  refine ⟨⟨below, entries, hlocate, hready.reached below entries hlocate, fun name hname => Text.mem_sorted.mp hname⟩,
    hready.names, (Text.sorted_perm _).nodup_iff.mpr (h.tree.at? hat).2.nodup, fun name hname => ?_⟩
  -- the first name on the way decides what can be asked, and that of a root's entry is its own
  cases directory with
  | nil =>
    rw [List.append_nil] at hlist
    exact h.askable _ hlist name (Text.mem_sorted.mp hname)
  | cons first rest => exact hready.orderly

theorem isReady_below (hready : (Task.entries directory (name :: names)).IsReady p)
    (hexcluded : name ∉ p.options.excluded) : (Task.directory (directory ++ [name])).IsReady p := by
  obtain ⟨hentry, hbelow⟩ := hready.reached.below h.tree hexcluded
  refine ⟨hbelow, ?_, hready.orderly.2 name List.mem_cons_self⟩
  exact List.forall_mem_append.mpr ⟨hready.names, List.forall_mem_singleton.mpr hentry⟩

end IsFollowable

/-! ## Entries under rules -/

/-- The walk that goes by rules as well. -/
def Plan.following (p : Plan) (rules : List Ignore.Rule) : Plan :=
  { p with options := { p.options with followsIgnoreFiles := true }, rules := some rules }

section Entry

variable (hp : p.IsPlain) (hw₁ : w₁.unaskable = none) (haskable : Ignore.isUnaskable (directory ++ [name]) = false)

include hp hw₁ haskable

theorem looksAt_following :
    (p.following rules).looksAt directory w₁ name = !Ignore.ignores rules (directory ++ [name]) := by
  simp [Plan.looksAt, Plan.isOver, Plan.isFull, Plan.following, hw₁, hp.uncapped, haskable]

/-- An ignored entry is passed over without a trace. -/
theorem addEntry_of_ignored (hignored : Ignore.ignores rules (directory ++ [name]) = true)
    (enter : Route → Walk → Walk) : w₁.addEntry (p.following rules) enter directory name = w₁ := by
  simp [Walk.addEntry, Plan.isOver, Plan.isFull, Plan.following, hw₁, hp.uncapped, haskable, hignored]

theorem not_enters_of_ignored (hignored : Ignore.ignores rules (directory ++ [name]) = true) :
    ¬(p.following rules).Enters directory w₁ name := by
  intro henters
  have hlooks := henters.looksAt
  rw [looksAt_following hp hw₁ haskable, hignored] at hlooks
  cases hlooks

/-- Rules that keep an entry change nothing about it. -/
theorem enters_following_iff (hw : w.unaskable = none) (hkept : Ignore.ignores rules (directory ++ [name]) = false) :
    (p.following rules).Enters directory w₁ name ↔ p.Enters directory w name := by
  have hlooks : (p.following rules).looksAt directory w₁ name = true := by
    rw [looksAt_following hp hw₁ haskable, hkept]
    rfl
  exact ⟨fun h => ⟨looksAt_eq_true hp hw, h.isDirectory, h.notExcluded⟩,
    fun h => ⟨hlooks, h.isDirectory, h.notExcluded⟩⟩

theorem found_pass_following (hkept : Ignore.ignores rules (directory ++ [name]) = false) :
    (w₁.pass (p.following rules) directory name).found = w₁.found ++ p.filesAt directory name ∧
      (w₁.pass (p.following rules) directory name).unaskable = none := by
  have hlooks : (p.following rules).looksAt directory w₁ name = true := by
    rw [looksAt_following hp hw₁ haskable, hkept]
    rfl
  rw [pass_of_looksAt hlooks]
  exact ⟨rfl, hw₁⟩

end Entry

/-! ## The two walks -/

/-- Nothing that the task covers has been entered. -/
def Task.IsFresh (real : Route) (w : Walk) (task : Task) : Prop :=
  ∀ route, task.Covers route → real ++ route ∉ w.entered

theorem Task.IsFresh.enter (h : (Task.directory directory).IsFresh real w) :
    (Task.entries directory names).IsFresh real (w.enter (real ++ directory)) := by
  intro route hcovers hmem
  obtain heq | hmem := List.mem_cons.mp hmem
  · -- what the entries cover lies below the directory
    obtain ⟨name, _, rest, rfl⟩ := hcovers
    have hlength := congrArg List.length heq
    simp only [List.length_append, List.length_singleton] at hlength
    omega
  · exact h route (Task.covers_of_entries hcovers) hmem

theorem Task.IsFresh.below (h : (Task.entries directory (name :: names)).IsFresh real w) :
    (Task.directory (directory ++ [name])).IsFresh real w := fun route hcovers => h route (Task.covers_below hcovers)

theorem Task.IsFresh.tail (h : (Task.entries directory (name :: names)).IsFresh real w) :
    (Task.entries directory names).IsFresh real w := fun route hcovers => h route (Task.covers_tail hcovers)

/-- Different entries of a directory have nothing in common. -/
theorem Task.IsFresh.after (h : (Task.entries directory (name :: names)).IsFresh real w) (hnames : name ∉ names)
    (hentered : ∀ below ∈ w'.entered, below ∈ w.entered ∨
      ∃ route, (Task.directory (directory ++ [name])).Covers route ∧ below = real ++ route) :
    (Task.entries directory names).IsFresh real w' := by
  intro route hcovers hmem
  obtain hmem | ⟨other, hother, heq⟩ := hentered _ hmem
  · exact h route (Task.covers_tail hcovers) hmem
  · obtain rfl := List.append_cancel_left heq
    obtain ⟨name', hname', hstart⟩ := hcovers
    have hsame : directory ++ [name'] = directory ++ [name] := by
      have hother' : directory ++ [name] <+: route := hother
      exact (List.prefix_of_prefix_length_le hstart hother' (by simp)).eq_of_length (by simp)
    obtain rfl := List.singleton_inj.mp (List.append_cancel_left hsame)
    exact hnames hname'

/-- The walk with rules ends on the task with what is kept of what the other walk finds. -/
def Follows (p : Plan) (rules : List Ignore.Rule) (task : Task) (w w' w₁ : Walk) : Prop :=
  ∃ log₁ w₁' found, Ends (p.following rules) task w₁ log₁ w₁' ∧ w₁'.unaskable = none ∧
    w'.found = w.found ++ found ∧ w₁'.found = w₁.found ++ found.filter (Ignore.Keeps rules ·)

section Entry

variable (hp : p.IsPlain) (hw₁ : w₁.unaskable = none) (haskable : Ignore.isUnaskable (directory ++ [name]) = false)

include hp hw₁ haskable

/-- Nothing is kept of what the other walk finds below an ignored entry. -/
theorem Follows.of_ignored (hignored : Ignore.ignores rules (directory ++ [name]) = true) {w'' : Walk}
    {first : List Route} (hfirst : w'.found = w.found ++ first)
    (hcovers : ∀ route ∈ first, (Task.directory (directory ++ [name])).Covers route)
    (hrest : Follows p rules (.entries directory names) w' w'' w₁) :
    Follows p rules (.entries directory (name :: names)) w w'' w₁ := by
  obtain ⟨log₁, w₁', found, hends, hunaskable, hfound, hkept⟩ := hrest
  have hnone : first.filter (Ignore.Keeps rules ·) = [] := by
    rw [List.filter_eq_nil_iff]
    intro route hroute hkeeps
    have hstart : directory ++ [name] <+: route := hcovers route hroute
    have hentry := ((of_decide_eq_true hkeeps).of_isPrefix hstart).ignores_eq_false (by simp)
    rw [hignored] at hentry
    cases hentry
  have hpass : w₁.pass (p.following rules) directory name = w₁ := addEntry_of_ignored hp hw₁ haskable hignored _
  rw [← hpass] at hends
  refine ⟨_, w₁', first ++ found, .passed (not_enters_of_ignored hp hw₁ haskable hignored) hends, hunaskable, ?_, ?_⟩
  · rw [hfound, hfirst, List.append_assoc]
  · rw [hkept, List.filter_append, hnone, List.nil_append]

theorem Follows.of_passed (hname : ¬p.Enters directory w name) (hw : w.unaskable = none)
    (hkeeps : Ignore.Keeps rules (directory ++ [name]))
    (hrest : Follows p rules (.entries directory names) (w.pass p directory name) w'
      (w₁.pass (p.following rules) directory name)) :
    Follows p rules (.entries directory (name :: names)) w w' w₁ := by
  obtain ⟨log₁, w₁', found, hends, hunaskable, hfound, hkept⟩ := hrest
  have hentry := hkeeps.ignores_eq_false (by simp)
  have hown : (p.filesAt directory name).filter (Ignore.Keeps rules ·) = p.filesAt directory name := by
    rw [List.filter_eq_self, Plan.filesAt]
    split
    · exact List.forall_mem_singleton.mpr (decide_eq_true hkeeps)
    · exact List.forall_mem_nil _
  have hname₁ := mt (enters_following_iff hp hw₁ haskable hw hentry).mp hname
  refine ⟨_, w₁', p.filesAt directory name ++ found, .passed hname₁ hends, hunaskable, ?_, ?_⟩
  · rw [hfound, found_pass hp hw, List.append_assoc]
  · rw [hkept, (found_pass_following hp hw₁ haskable hentry).1, List.filter_append, hown, List.append_assoc]

end Entry

/-- Step by step, the walk with rules does what the other walk does, or passes over an entry with all below it. -/
theorem IsFollowable.follows (h : IsFollowable p real) (hends : Ends p task w log w')
    (hcalls : ∀ call ∈ log, call.Succeeds p) (hready : task.IsReady p) (hkept : Ignore.Keeps rules task.start)
    (hw : w.unaskable = none) (hfresh : task.IsFresh real w) (hw₁ : w₁.unaskable = none)
    (hfresh₁ : task.IsFresh real w₁) : Follows p rules task w w' w₁ := by
  -- along the walk without rules, from any place where the other walk has still to enter all that the task covers
  induction hends generalizing w₁ with
  | unresolved hreal =>
    obtain ⟨real, hreal'⟩ := hcalls _ List.mem_cons_self
    cases hreal.symm.trans hreal'
  | unread _ _ hlist =>
    obtain ⟨names, hlist'⟩ := hcalls _ (List.mem_cons_of_mem _ List.mem_cons_self)
    cases hlist.symm.trans hlist'
  | @reentered directory below w hreal hentered =>
    -- without links no directory is met twice
    obtain rfl := h.links.realRoute_eq h.root hready.names hreal
    exact absurd hentered (hfresh directory (List.prefix_refl _))
  | done => exact ⟨[], w₁, [], .done, hw₁, (List.append_nil _).symm, (List.append_nil _).symm⟩
  | @listed directory below names w w' log hreal hentered hlist hentries ih =>
    obtain rfl := h.links.realRoute_eq h.root hready.names hreal
    have hcalls' := fun call hcall => hcalls call (List.mem_cons_of_mem _ (List.mem_cons_of_mem _ hcall))
    have hentered₁ : (w₁.enter (real ++ directory)).unaskable = none := hw₁
    obtain ⟨log₁, w₁', found, hends₁, hrest⟩ :=
      ih hcalls' (h.isReady_entries hready hlist) hkept hw hfresh.enter hentered₁ hfresh₁.enter
    have hfresh' : real ++ directory ∉ w₁.entered := hfresh₁ directory (List.prefix_refl _)
    exact ⟨_, w₁', found, .listed hreal hfresh' hlist hends₁, hrest⟩
  | @passed directory name names w w' log hname hrest ih =>
    have hcalls' := fun call hcall => hcalls call (List.mem_append_right _ hcall)
    have haskable := hready.orderly.2 name List.mem_cons_self
    have hw' : (w.pass p directory name).unaskable = none := unaskable_pass h.plain hw
    have hfresh' : (Task.entries directory names).IsFresh real (w.pass p directory name) := by
      unfold Task.IsFresh
      rw [entered_pass]
      exact hfresh.tail
    cases hentry : Ignore.ignores rules (directory ++ [name]) with
    | true =>
      obtain ⟨first, hfirst, hown⟩ := exists_found_pass p directory w name
      apply Follows.of_ignored h.plain hw₁ haskable hentry hfirst
      · exact fun route hroute => hown route hroute ▸ List.prefix_refl _
      · exact ih hcalls' hready.tail hkept hw' hfresh' hw₁ hfresh₁.tail
    | false =>
      have hkeeps := Ignore.keeps_concat_iff.mpr ⟨hkept, hentry⟩
      apply Follows.of_passed h.plain hw₁ haskable hname hw hkeeps
      apply ih hcalls' hready.tail hkept hw' hfresh' (found_pass_following h.plain hw₁ haskable hentry).2
      unfold Task.IsFresh
      rw [entered_pass]
      exact hfresh₁.tail
  | @deeper directory name names w w' w'' log log' hname hbelow hrest ih ihrest =>
    have hcalls' := fun call hcall => hcalls call (List.mem_append_right _ (List.mem_append_left _ hcall))
    have hcalls'' := fun call hcall => hcalls call (List.mem_append_right _ (List.mem_append_right _ hcall))
    have haskable := hready.orderly.2 name List.mem_cons_self
    have hnames : name ∉ names := (List.nodup_cons.mp hready.orderly.1).1
    have hready' := h.isReady_below hready hname.notExcluded
    have hw' := hbelow.unaskable h.plain hw
    have hfresh' := hfresh.after hnames (hbelow.exists_covered h.tree h.links h.root hready')
    cases hentry : Ignore.ignores rules (directory ++ [name]) with
    | true =>
      obtain ⟨first, hfirst, hcovers⟩ := hbelow.exists_found
      apply Follows.of_ignored h.plain hw₁ haskable hentry hfirst hcovers
      exact ihrest hcalls'' hready.tail hkept hw' hfresh' hw₁ hfresh₁.tail
    | false =>
      have hkeeps := Ignore.keeps_concat_iff.mpr ⟨hkept, hentry⟩
      obtain ⟨log₁, w₁', first, hbelow₁, hw₁', hfirst, hfirst₁⟩ :=
        ih hcalls' hready' hkeeps hw hfresh.below hw₁ hfresh₁.below
      have hready₁ : (Task.directory (directory ++ [name])).IsReady (p.following rules) :=
        ⟨hready'.reached, hready'.names, hready'.orderly⟩
      have hfresh₁' := hfresh₁.after hnames (hbelow₁.exists_covered h.tree h.links h.root hready₁)
      obtain ⟨log₁', w₁'', found, hrest₁, hw₁'', hfound, hfound₁⟩ :=
        ihrest hcalls'' hready.tail hkept hw' hfresh' hw₁' hfresh₁'
      have hname₁ : (p.following rules).Enters directory w₁ name :=
        (enters_following_iff h.plain hw₁ haskable hw hentry).mpr hname
      refine ⟨_, w₁'', first ++ found, .deeper hname₁ hbelow₁ hrest₁, hw₁'', ?_, ?_⟩
      · rw [hfound, hfirst, List.append_assoc]
      · rw [hfound₁, hfirst₁, List.filter_append, List.append_assoc]

/-! ## Scans -/

/-- Where there are no links and no call fails, the scan that follows ignore files finds, in the same order, the files
that the other scan finds and on whose way nothing is ignored. So it finds nothing that the rules ignore. A file that
they do not ignore it finds unless a directory on the way is ignored without its slash, which only a negated rule for
directories can bring about. -/
theorem sourceFiles_following (htree : v.top.IsTree) (hlinks : IsLinkFree v root) (huncapped : options.maxFiles = none)
    (haskable : ∀ names, v.list root = .ok names → ∀ name ∈ names, Ignore.isUnaskable [name] = false)
    (hcalls : ∀ log w, Ends (plan v { options with followsIgnoreFiles := false } root).1 (.directory []) {} log w →
      ∀ call ∈ log, call.Succeeds (plan v { options with followsIgnoreFiles := false } root).1) :
    let rules := (Ignore.load v options.excluded root).rules
    ∃ routes kept,
      (sourceFiles v { options with followsIgnoreFiles := false } root).files = .ok routes ∧
      (sourceFiles v { options with followsIgnoreFiles := true } root).files = .ok kept ∧
      kept = routes.filter (Ignore.Keeps rules ·) ∧
      (∀ route ∈ kept, Ignore.ignores rules route = false) ∧
      (∀ route ∈ routes, Ignore.ignores rules route = false →
        (route ∈ kept ↔
          ∀ i, i + 1 < route.length → Ignore.verdict rules (Route.text (route.take (i + 1))) = false)) ∧
      (Ignore.NegatesEvenly rules → kept = routes.filter (!Ignore.ignores rules ·)) := by
  intro rules
  let p : Plan := ⟨v, root, { options with followsIgnoreFiles := false }, none⟩
  obtain ⟨log, hends⟩ := exists_ends p (Nat.le_refl _)
  have hwhole : IsWhole p log (Walk.through p (depthLimit v) [] {}) :=
    ⟨⟨rfl, huncapped⟩, htree, hends, hcalls _ _ hends⟩
  obtain ⟨real, _, hroot⟩ := (hends.settled hwhole.plain rfl hwhole.succeeds).1
  rw [List.append_nil] at hroot
  have hfollowable : IsFollowable p real := ⟨hwhole.plain, htree, hlinks, hroot, haskable⟩
  have hfresh : (Task.directory []).IsFresh real {} := fun route _ hmem => nomatch hmem
  obtain ⟨log₁, w₁, found, hends₁, hw₁, hfound, hkept⟩ : Follows p rules (.directory []) {} _ {} :=
    hfollowable.follows hends hwhole.succeeds (Task.isReady_root p) (Ignore.keeps_nil rules) rfl hfresh rfl hfresh
  obtain rfl : _ = found := hfound
  have hmem {route : Route} : route ∈ w₁.found ↔ route ∈ (Walk.through p (depthLimit v) [] {}).found ∧
      Ignore.Keeps rules route := by
    rw [hkept]
    exact List.mem_filter.trans (and_congr_right' decide_eq_true_iff)
  refine ⟨_, w₁.found, files_of_ends hends (hends.unaskable hwhole.plain rfl), files_of_ends hends₁ hw₁, hkept,
    fun route hroute => ?_, fun route hroute hignored => ?_, fun heven => hkept.trans ?_⟩
  · obtain ⟨hfound, hkeeps⟩ := hmem.mp hroute
    exact hkeeps.ignores_eq_false (hwhole.names_of_mem_found hfound).1
  · rw [hmem, and_iff_right hroute]
    exact Ignore.keeps_iff_of_not_ignores hignored
  · apply List.filter_congr
    intro route hroute
    obtain ⟨hne, hnames, _⟩ := hwhole.names_of_mem_found hroute
    rw [Bool.eq_iff_iff, decide_eq_true_iff, heven.keeps_iff hne hnames, Bool.not_eq_true']

/-- All is ignored but directories and the files of one extension. -/
def whiteList : Volume where
  top := .directory [(".gitignore", .file (Text.toBytes "*\n!*/\n!*.c")), ("main.c", .file []),
    ("src", .directory [("a.c", .file [])])]

theorem isTree_whiteList : whiteList.top.IsTree := by decide

theorem isLinkFree_whiteList : IsLinkFree whiteList [] := by
  intro place hplace
  obtain rfl : ([], whiteList.top) = place := Except.ok.inj hplace
  decide

def whiteListRules : List Ignore.Rule :=
  [⟨false, .anyLevel, [.many .notSlash], .entry⟩, ⟨true, .anyLevel, [.many .notSlash], .directory⟩,
    ⟨true, .anyLevel, [.many .notSlash, .one (.this (unit '.')), .one (.this (unit 'c'))], .entry⟩]

theorem load_whiteList : Ignore.load whiteList [".git", "node_modules"] [] = ⟨whiteListRules, true⟩ := by
  have hfiles : (Ignore.directoriesWithFile [] whiteList.top).filter
      (!Ignore.liesInExcluded [".git", "node_modules"] ·) = ([[]] : List Route) := by decide +kernel
  exact load_eq_addFiles rfl hfiles (Nat.le_refl 1)

theorem through_whiteList : Walk.through ⟨whiteList, [], {}, none⟩ (depthLimit whiteList) [] {} =
    ⟨[["main.c"], ["src", "a.c"]], [["src"], []], [], none⟩ := by cbv

theorem succeeds_whiteList : ∀ log w, Ends (plan whiteList {} []).1 (.directory []) {} log w →
    ∀ call ∈ log, call.Succeeds (plan whiteList {} []).1 := by
  intro log w hends
  rw [plan_eq whiteList [] rfl] at hends ⊢
  apply succeeds_of_unfailing _ hends
  rw [through_whiteList]
  exact nofun

/-- The directory is taken back with its slash only, so the file in it is lost. -/
theorem sourceFiles_following_whiteList :
    (sourceFiles whiteList {} []).files = .ok [["main.c"], ["src", "a.c"]] ∧
      (sourceFiles whiteList { followsIgnoreFiles := true } []).files = .ok [["main.c"]] := by
  have haskable : ∀ names, whiteList.list [] = .ok names → ∀ name ∈ names, Ignore.isUnaskable [name] = false := by
    intro names hnames
    obtain rfl : [(".gitignore" : Text), "main.c", "src"] = names := Except.ok.inj hnames
    decide
  obtain ⟨routes, kept, hroutes, hkept, rfl, _⟩ :=
    @sourceFiles_following whiteList {} [] isTree_whiteList isLinkFree_whiteList rfl haskable succeeds_whiteList
  have hall := sourceFiles_eq whiteList [] rfl rfl through_whiteList
  have hfound : (sourceFiles whiteList {} []).files = .ok routes := hroutes
  rw [hall] at hfound ⊢
  obtain rfl := Except.ok.inj hfound
  refine ⟨rfl, hkept.trans ?_⟩
  rw [load_whiteList]
  decide +kernel

/-- The rules do not ignore that file. -/
theorem sourceFiles_whiteList_ne :
    whiteList.top.IsTree ∧ IsLinkFree whiteList [] ∧
    (∀ log w, Ends (plan whiteList {} []).1 (.directory []) {} log w →
      ∀ call ∈ log, call.Succeeds (plan whiteList {} []).1) ∧
    (sourceFiles whiteList { followsIgnoreFiles := true } []).files ≠
      (sourceFiles whiteList {} []).files.map fun routes =>
        routes.filter (!Ignore.ignores (Ignore.load whiteList [".git", "node_modules"] []).rules ·) := by
  refine ⟨isTree_whiteList, isLinkFree_whiteList, succeeds_whiteList, ?_⟩
  have hwalk : Walk.through ⟨whiteList, [], { followsIgnoreFiles := true }, some whiteListRules⟩ (depthLimit whiteList)
      [] {} = ⟨[["main.c"]], [[]], [], none⟩ := by cbv
  have hplan : (plan whiteList { followsIgnoreFiles := true } []).1 =
      ⟨whiteList, [], { followsIgnoreFiles := true }, some whiteListRules⟩ := by
    show Plan.mk whiteList [] _ (some (Ignore.load whiteList [".git", "node_modules"] []).rules) = _
    rw [load_whiteList]
  have hkept : (sourceFiles whiteList { followsIgnoreFiles := true } []).files = .ok [["main.c"]] := by
    obtain ⟨log, hends⟩ :=
      exists_ends ⟨whiteList, [], { followsIgnoreFiles := true }, some whiteListRules⟩ (Nat.le_refl _)
    rw [hwalk, ← hplan] at hends
    exact files_of_ends hends rfl
  rw [hkept, sourceFiles_eq whiteList [] rfl rfl through_whiteList, load_whiteList]
  decide +kernel

end CCompletion.Scan
