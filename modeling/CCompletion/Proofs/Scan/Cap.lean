import CCompletion.Proofs.Scan.Files
import CCompletion.Scan.Source
import Mathlib

/-!
# Capped scans

A walk with a cap goes side by side with the walk that has none until it has found as many files as it may. From there
on it looks at nothing more, while the other walk can only add to what both have found. So the cap cuts the list of
files, and does nothing else to it.
-/

namespace CCompletion.Scan

variable {p : Plan} {w c : Walk} {directory : Route} {name : Text} {names : List Text} {n depth : Nat}
  {enter enter' : Route → Walk → Walk}

/-- The plan with another cap. -/
def Plan.capped (p : Plan) (cap : Option Nat) : Plan := { p with options := { p.options with maxFiles := cap } }

/-- Whatever the cap is, a walk that comes to a directory makes ready and then looks at some names there. Nothing has
been found by then, nor has anything been unaskable. -/
theorem exists_through_succ (p : Plan) (directory : Route) (w : Walk) :
    ∃ (w' : Walk) (names : List Text), w'.found = w.found ∧ w'.unaskable = w.unaskable ∧ ∀ cap depth,
      Walk.through (p.capped cap) (depth + 1) directory w =
        names.foldl (Walk.addEntry (p.capped cap) (Walk.through (p.capped cap) depth) directory) w' := by
  have hvolume (cap : Option Nat) : (p.capped cap).volume = p.volume := rfl
  have hroot (cap : Option Nat) : (p.capped cap).root = p.root := rfl
  simp only [Walk.through, hvolume, hroot]
  cases p.volume.realRoute (p.root ++ directory) with
  | error e => exact ⟨w.warn (.directoryUnresolved (p.path directory)), [], rfl, rfl, fun cap depth => rfl⟩
  | ok real =>
    by_cases hentered : real ∈ w.entered
    · simp only [if_pos hentered]
      exact ⟨w, [], rfl, rfl, fun cap depth => rfl⟩
    · simp only [if_neg hentered]
      cases p.volume.list (p.root ++ directory) with
      | error e =>
        exact ⟨Walk.warn { w with entered := real :: w.entered } (.directoryUnread (p.path directory)), [], rfl, rfl,
          fun cap depth => rfl⟩
      | ok names => exact ⟨{ w with entered := real :: w.entered }, Text.sorted names, rfl, rfl, fun cap depth => rfl⟩

/-! ## What has been found stays -/

theorem found_prefix_pass (p : Plan) (directory : Route) (w : Walk) (name : Text) :
    w.found <+: (w.pass p directory name).found := by
  cases hlooks : p.looksAt directory w name with
  | false =>
    obtain ⟨unaskable, hpass⟩ := pass_of_not_looksAt hlooks
    have hfound : (w.pass p directory name).found = w.found := by rw [hpass]
    exact hfound ▸ List.prefix_rfl
  | true =>
    rw [pass_of_looksAt hlooks]
    exact List.prefix_append _ _

theorem found_prefix_addEntry (henter : ∀ route w, w.found <+: (enter route w).found) (directory : Route) (w : Walk)
    (name : Text) : w.found <+: (w.addEntry p enter directory name).found := by
  by_cases hname : p.Enters directory w name
  · rw [addEntry_of_enters enter hname]
    exact henter _ w
  · rw [addEntry_of_not_enters enter hname]
    exact found_prefix_pass p directory w name

theorem found_prefix_foldl (henter : ∀ route w, w.found <+: (enter route w).found) (w : Walk) :
    w.found <+: (names.foldl (Walk.addEntry p enter directory) w).found := by
  induction names generalizing w with
  | nil => exact List.prefix_rfl
  | cons name names ih => exact (found_prefix_addEntry henter directory w name).trans (ih _)

theorem found_prefix_through (p : Plan) (cap : Option Nat) (depth : Nat) (directory : Route) (w : Walk) :
    w.found <+: (Walk.through (p.capped cap) depth directory w).found := by
  induction depth generalizing directory w with
  | zero => exact List.prefix_rfl
  | succ depth ih =>
    obtain ⟨w', names, hfound, _, hthrough⟩ := exists_through_succ p directory w
    rw [hthrough, ← hfound]
    exact found_prefix_foldl ih w'

/-! ## Walks that have found enough -/

theorem addEntry_of_isFull (h : p.isFull w = true) : w.addEntry p enter directory name = w := by
  have hover : p.isOver w = true := by rw [Plan.isOver, h, Bool.or_true]
  exact if_pos hover

theorem foldl_addEntry_of_isFull (h : p.isFull w = true) : names.foldl (Walk.addEntry p enter directory) w = w := by
  induction names with
  | nil => rfl
  | cons name names ih => rw [List.foldl_cons, addEntry_of_isFull h, ih]

/-- It may still read the directory that it is sent to, but it takes nothing in. -/
theorem through_of_isFull {cap : Option Nat} (h : (p.capped cap).isFull w = true) (depth : Nat) (directory : Route) :
    (Walk.through (p.capped cap) depth directory w).found = w.found ∧
      (Walk.through (p.capped cap) depth directory w).unaskable = w.unaskable := by
  cases depth with
  | zero => exact ⟨rfl, rfl⟩
  | succ depth =>
    obtain ⟨w', names, hfound, hasked, hthrough⟩ := exists_through_succ p directory w
    have hfull : (p.capped cap).isFull w' = true := by rwa [Plan.isFull, hfound, ← Plan.isFull]
    rw [hthrough, foldl_addEntry_of_isFull hfull]
    exact ⟨hfound, hasked⟩

/-! ## Side by side -/

/-- How far a walk with the cap `n` has come when the walk without a cap has come to `w`: as far, while fewer files
are found; then no further than the first `n` of them. -/
inductive Truncates (n : Nat) (w : Walk) : Walk → Prop
  | same (hfew : w.found.length < n) : Truncates n w w
  | full {c : Walk} (hmany : n ≤ w.found.length) (hfound : c.found = w.found.take n) (hasked : c.unaskable = none) :
      Truncates n w c

/-- A walk that has found no more than the cap allows is not cut, if it could ask about all it came by. -/
theorem Truncates.of_length_le (hlength : w.found.length ≤ n) (hasked : w.unaskable = none) : Truncates n w w := by
  by_cases hfew : w.found.length < n
  · exact .same hfew
  · have hmany : n ≤ w.found.length := by omega
    exact .full hmany (List.take_of_length_le hlength).symm hasked

/-- What is found later does not change the first `n` files. -/
theorem Truncates.of_grows {w' : Walk} (hmany : n ≤ w.found.length) (hfound : c.found = w.found.take n)
    (hasked : c.unaskable = none) (hgrows : w.found <+: w'.found) : Truncates n w' c := by
  refine .full (hmany.trans hgrows.length_le) ?_ hasked
  obtain ⟨more, hmore⟩ := hgrows
  rw [← hmore, List.take_append_of_le_length hmany, hfound]

theorem isFull_of_take (hmany : n ≤ w.found.length) (hfound : c.found = w.found.take n) :
    (p.capped (some n)).isFull c = true := by
  show decide (n ≤ c.found.length) = true
  rw [decide_eq_true_iff, hfound, List.length_take]
  omega

/-- Before the cap is reached, it plays no part. -/
theorem addEntry_capped (hfew : w.found.length < n) :
    w.addEntry (p.capped (some n)) enter directory name = w.addEntry (p.capped none) enter directory name := by
  have hfull : (p.capped (some n)).isFull w = false := decide_eq_false (Nat.not_le_of_lt hfew)
  have hover : (p.capped (some n)).isOver w = (p.capped none).isOver w := by
    rw [Plan.isOver, hfull]
    rfl
  unfold Walk.addEntry
  rw [hover]
  rfl

theorem Truncates.pass (hfew : w.found.length < n) :
    Truncates n (w.pass (p.capped none) directory name) (w.pass (p.capped none) directory name) := by
  cases hlooks : (p.capped none).looksAt directory w name with
  | false =>
    obtain ⟨unaskable, hpass⟩ := pass_of_not_looksAt hlooks
    rw [hpass]
    exact .same hfew
  | true =>
    -- An entry that is looked at is one file at most, and nothing has been unaskable so far.
    have hfiles : ((p.capped none).filesAt directory name).length ≤ 1 := by
      rw [Plan.filesAt]
      split
      · exact Nat.le_refl 1
      · exact Nat.zero_le 1
    have hasked : w.unaskable = none := by
      simp only [Plan.looksAt, Plan.isOver, Bool.and_eq_true, Bool.not_eq_true', Bool.or_eq_false_iff] at hlooks
      exact Option.not_isSome_iff_eq_none.mp (Bool.not_eq_true _ ▸ hlooks.1.1.1)
    rw [pass_of_looksAt hlooks]
    apply Truncates.of_length_le
    · show (w.found ++ _).length ≤ n
      rw [List.length_append]
      omega
    · exact hasked

/-- One entry: the capped walk takes it in as the other does, or it is full. -/
theorem Truncates.addEntry (h : Truncates n w c) (hgrows : ∀ route w, w.found <+: (enter route w).found)
    (henter : ∀ route w, w.found.length < n → Truncates n (enter route w) (enter' route w)) (name : Text) :
    Truncates n (w.addEntry (p.capped none) enter directory name)
      (c.addEntry (p.capped (some n)) enter' directory name) := by
  cases h with
  | same hfew =>
    rw [addEntry_capped hfew]
    by_cases hname : (p.capped none).Enters directory w name
    · rw [addEntry_of_enters enter hname, addEntry_of_enters enter' hname]
      exact henter _ w hfew
    · rw [addEntry_of_not_enters enter hname, addEntry_of_not_enters enter' hname]
      exact .pass hfew
  | full hmany hfound hasked =>
    rw [addEntry_of_isFull (isFull_of_take hmany hfound)]
    exact .of_grows hmany hfound hasked (found_prefix_addEntry hgrows directory w name)

theorem Truncates.foldl (h : Truncates n w c) (hgrows : ∀ route w, w.found <+: (enter route w).found)
    (henter : ∀ route w, w.found.length < n → Truncates n (enter route w) (enter' route w)) :
    Truncates n (names.foldl (Walk.addEntry (p.capped none) enter directory) w)
      (names.foldl (Walk.addEntry (p.capped (some n)) enter' directory) c) := by
  induction names generalizing w c with
  | nil => exact h
  | cons name names ih => exact ih (h.addEntry hgrows henter name)

/-- From a place where both have come as far, the two walks go through a directory side by side. -/
theorem truncates_through (p : Plan) (depth : Nat) (directory : Route) (hfew : w.found.length < n) :
    Truncates n (Walk.through (p.capped none) depth directory w)
      (Walk.through (p.capped (some n)) depth directory w) := by
  induction depth generalizing directory w with
  | zero => exact .same hfew
  | succ depth ih =>
    obtain ⟨w', names, hfound, _, hthrough⟩ := exists_through_succ p directory w
    have hstart : Truncates n w' w' := .same (by rwa [hfound])
    rw [hthrough, hthrough]
    apply hstart.foldl
    · exact found_prefix_through p none depth
    · intro route w hfew
      exact ih route hfew

/-! ## Scans -/

theorem plan_capped (v : Volume) (options : ScanOptions) (root : Route) (cap : Option Nat) :
    plan v { options with maxFiles := cap } root = ((plan v options root).1.capped cap, (plan v options root).2) := by
  unfold plan
  dsimp only
  by_cases hrules : options.followsIgnoreFiles = true
  · rw [if_pos hrules, if_pos hrules]
    rfl
  · rw [if_neg hrules, if_neg hrules]
    rfl

theorem truncates_scan (p : Plan) (depth n : Nat) :
    Truncates n (Walk.through (p.capped none) depth [] {}) (Walk.through (p.capped (some n)) depth [] {}) := by
  cases n with
  | zero =>
    -- With no file allowed, the capped walk is full before it starts.
    have hfull : (p.capped (some 0)).isFull {} = true := rfl
    obtain ⟨hfound, hasked⟩ := through_of_isFull hfull depth []
    exact .full (Nat.zero_le _) hfound hasked
  | succ n => exact truncates_through p depth [] (Nat.succ_pos n)

/-- What a scan answers whose walk ends so. -/
def Walk.files (w : Walk) : Except Route (List Route) :=
  match w.unaskable with
  | some route => .error route
  | none => .ok w.found

theorem Truncates.files_of_ok (h : Truncates n w c) {routes : List Route} (hw : w.files = .ok routes) :
    c.files = .ok (routes.take n) := by
  cases hasked : w.unaskable with
  | some route => rw [Walk.files, hasked] at hw; cases hw
  | none =>
    rw [Walk.files, hasked] at hw
    obtain rfl := Except.ok.inj hw
    cases h with
    | same hfew => rw [Walk.files, hasked, List.take_of_length_le (Nat.le_of_lt hfew)]
    | full _ hfound hasked => rw [Walk.files, hasked, hfound]

theorem Truncates.files_of_error (h : Truncates n w c) {route : Route} (hw : w.files = .error route) :
    c.files = if w.found.length < n then .error route else .ok (w.found.take n) := by
  cases h with
  | same hfew => rw [if_pos hfew, hw]
  | full hmany hfound hasked => rw [if_neg (Nat.not_lt_of_le hmany), Walk.files, hasked, hfound]

/-- The walk of a scan. -/
def walkOf (v : Volume) (options : ScanOptions) (root : Route) : Walk :=
  Walk.through (plan v options root).1 (depthLimit v) [] {}

theorem files_sourceFiles (v : Volume) (options : ScanOptions) (root : Route) :
    (sourceFiles v options root).files = (walkOf v options root).files := rfl

theorem truncates_walkOf (v : Volume) (options : ScanOptions) (root : Route) (n : Nat) :
    Truncates n (walkOf v { options with maxFiles := none } root)
      (walkOf v { options with maxFiles := some n } root) := by
  unfold walkOf
  rw [plan_capped v options root none, plan_capped v options root (some n)]
  exact truncates_scan _ _ n

theorem paths?_eq_some_iff {o : Outcome} {root : Route} {paths : List Text} : o.paths? root = some paths ↔
    ∃ routes, o.files = .ok routes ∧ paths = routes.map fun r => Route.absolute (root ++ r) := by
  unfold Outcome.paths?
  cases o.files with
  | ok routes => simp [eq_comm]
  | error route => simp

/-- Where a scan without a cap succeeds, the scan with a cap returns the first of its paths. Where it fails, the scan
with a cap fails as well, unless it has found enough by then. -/
theorem sourceFiles_capped (v : Volume) (options : ScanOptions) (root : Route) :
    (∀ paths, (sourceFiles v { options with maxFiles := none } root).paths? root = some paths →
      ∀ n, (sourceFiles v { options with maxFiles := some n } root).paths? root = some (paths.take n)) ∧
    ∀ route, (sourceFiles v { options with maxFiles := none } root).files = .error route →
      ∃ found : List Route, ∀ n, (sourceFiles v { options with maxFiles := some n } root).files =
        if found.length < n then .error route else .ok (found.take n) := by
  constructor
  · intro paths hpaths n
    obtain ⟨routes, hroutes, rfl⟩ := paths?_eq_some_iff.mp hpaths
    rw [files_sourceFiles] at hroutes
    refine paths?_eq_some_iff.mpr ⟨routes.take n, ?_, List.map_take.symm⟩
    rw [files_sourceFiles]
    exact (truncates_walkOf v options root n).files_of_ok hroutes
  · intro route hroute
    refine ⟨(walkOf v { options with maxFiles := none } root).found, fun n => ?_⟩
    rw [files_sourceFiles] at hroute ⊢
    exact (truncates_walkOf v options root n).files_of_error hroute

/-- A name of dots, which no rule can be asked about, between a file and a directory with a link up. -/
def dots : Volume where
  top := .directory [("#.c", .file []), ("...", .file []), ("d", .directory [("b.h", .file []), ("up", .link "..")])]

theorem load_dots : Ignore.load dots [".git", "node_modules"] [] = {} := by
  have hfiles : (Ignore.directoriesWithFile [] dots.top).filter
      (!Ignore.liesInExcluded [".git", "node_modules"] ·) = [] := by decide +kernel
  exact load_eq_addFiles rfl hfiles (Nat.zero_le 1)

theorem files_dots : (sourceFiles dots { followsIgnoreFiles := true } []).files = .error ["..."] := by
  have hplan : (plan dots { followsIgnoreFiles := true } []).1 =
      ⟨dots, [], { followsIgnoreFiles := true }, some []⟩ := by
    rw [plan_of_follows dots [] rfl, load_dots]
  have hwalk : Walk.through ⟨dots, [], { followsIgnoreFiles := true }, some []⟩ (depthLimit dots) [] {} =
      ⟨[["#.c"]], [[]], [], some ["..."]⟩ := by cbv
  rw [files_sourceFiles, walkOf, hplan, hwalk]
  rfl

theorem sourceFiles_capped_dots :
    (sourceFiles dots {} []).paths? [] = some [Text.ofString "/#.c", "/d/b.h"] ∧
    (sourceFiles dots { maxFiles := some 1 } []).paths? [] = some [Text.ofString "/#.c"] ∧
    (sourceFiles dots { followsIgnoreFiles := true } []).files = .error ["..."] ∧
    ∃ found : List Route, ∀ n, (sourceFiles dots { followsIgnoreFiles := true, maxFiles := some n } []).files =
      if found.length < n then .error ["..."] else .ok (found.take n) := by
  have hpaths : (sourceFiles dots {} []).paths? [] = some [Text.ofString "/#.c", "/d/b.h"] := by cbv
  exact ⟨hpaths, (sourceFiles_capped dots {} []).1 _ hpaths 1, files_dots,
    (sourceFiles_capped dots { followsIgnoreFiles := true } []).2 _ files_dots⟩

end CCompletion.Scan
