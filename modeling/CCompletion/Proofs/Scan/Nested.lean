import CCompletion.Proofs.Ignore.Outside
import CCompletion.Proofs.Scan.Order
import CCompletion.Proofs.Scan.Way

/-!
# Scans without a nested ignore file

When the rules of a nested ignore file stay below its directory, removing the file changes nothing that a scan sees
elsewhere: outside the directory, the same entries are listed, looked at and kept. So the same files are found there.
-/

namespace CCompletion.Scan

variable {v v' : Volume} {options : ScanOptions} {root d : Route} {p p' : Plan} {w w' : Walk} {directory route : Route}
  {name : Text} {names : List Text} {log log' : List Call} {content : Text}

/-! ## Plans that agree outside a directory -/

/-- Outside a directory, calls succeed in the same way and the same entries are kept. -/
structure AgreesOutside (d : Route) (p p' : Plan) : Prop where
  root : p'.root = p.root
  options : p'.options = p.options
  real : ∀ route, (∀ name ∈ route, IsEntryName name) → ¬d <+: route → ∀ real,
    p.volume.realRoute (p.root ++ route) = .ok real ↔ p'.volume.realRoute (p.root ++ route) = .ok real
  list : ∀ route, (∀ name ∈ route, IsEntryName name) → ¬d <+: route → ∀ names,
    p.volume.list (p.root ++ route) = .ok names ↔ p'.volume.list (p.root ++ route) = .ok names
  inspect : ∀ route, (∀ name ∈ route, IsEntryName name) → ¬d <+: route → ∀ info,
    p.volume.inspect (p.root ++ route) = .ok info ↔ p'.volume.inspect (p.root ++ route) = .ok info
  keeps : ∀ directory names name, (∀ other ∈ directory ++ [name], IsEntryName other) → ¬d <+: directory ++ [name] →
    p.volume.list (p.root ++ directory) = .ok names → name ∈ names →
    p'.keeps (directory ++ [name]) = p.keeps (directory ++ [name])

theorem not_isPrefix_of_concat (h : ¬d <+: directory ++ [name]) : ¬d <+: directory :=
  fun hstarts => h (hstarts.trans (List.prefix_append _ _))

namespace AgreesOutside

variable (h : AgreesOutside d p p')

include h

theorem symm : AgreesOutside d p' p where
  root := h.root.symm
  options := h.options.symm
  real := by
    rw [h.root]
    exact fun route hnames hout real => (h.real route hnames hout real).symm
  list := by
    rw [h.root]
    exact fun route hnames hout names => (h.list route hnames hout names).symm
  inspect := by
    rw [h.root]
    exact fun route hnames hout info => (h.inspect route hnames hout info).symm
  keeps := by
    rw [h.root]
    intro directory names name hnames hout hlist hname
    have hdirectory := (List.forall_mem_append.mp hnames).1
    have hlist := (h.list directory hdirectory (not_isPrefix_of_concat hout) names).mpr hlist
    exact (h.keeps directory names name hnames hout hlist hname).symm

/-- Outside the directory the same directories are read. -/
theorem reads (htree : p.volume.top.IsTree) (hread : Reads p directory names) (hout : ¬d <+: directory) :
    Reads p' directory names := by
  have hroot := h.root
  induction hread with
  | root hreal hlist =>
    rw [← List.append_nil p.root] at hreal hlist
    rw [h.real [] nofun hout] at hreal
    rw [h.list [] nofun hout] at hlist
    rw [List.append_nil, ← hroot] at hreal hlist
    exact .root hreal hlist
  | @entry directory real names below name hdirectory hname hkept hinspect hexcluded hreal hlist ih =>
    have hnames := (Reads.entry hdirectory hname hkept hinspect hexcluded hreal hlist).isEntryName_of_mem htree
    rw [← h.keeps directory names name hnames hout hdirectory.list hname] at hkept
    rw [h.inspect _ hnames hout] at hinspect
    rw [h.real _ hnames hout] at hreal
    rw [h.list _ hnames hout] at hlist
    rw [← h.options] at hexcluded
    rw [← hroot] at hinspect hreal hlist
    exact .entry (ih (not_isPrefix_of_concat hout)) hname hkept hinspect hexcluded hreal hlist

theorem takes (hnames : ∀ other ∈ directory ++ [name], IsEntryName other) (hout : ¬d <+: directory ++ [name])
    (htakes : p.takes directory name = true) : p'.takes directory name = true := by
  rw [Plan.takes] at htakes
  split at htakes
  · rename_i size hinspect
    rw [h.inspect _ hnames hout, ← h.root] at hinspect
    rw [Plan.takes, hinspect]
    simp only [Plan.isSource, Plan.isTooLarge, h.options] at htakes ⊢
    exact htakes
  · cases htakes

/-- Outside the directory the same files are found. -/
theorem mem_found (hstraight : IsStraight p log w) (hstraight' : IsStraight p' log' w') (hout : ¬d <+: route)
    (hfound : route ∈ w.found) : route ∈ w'.found := by
  obtain ⟨directory, names, name, hread, hname, hadmits, rfl⟩ := hstraight.mem_found_iff.mp hfound
  have hnames : ∀ other ∈ directory ++ [name], IsEntryName other :=
    List.forall_mem_append.mpr ⟨hread.isEntryName_of_mem hstraight.tree,
      List.forall_mem_singleton.mpr (hread.isEntryName hstraight.tree hname)⟩
  rw [Plan.admits, Bool.and_eq_true] at hadmits
  refine hstraight'.mem_found_iff.mpr ⟨directory, names, name, ?_, hname, ?_, rfl⟩
  · exact h.reads hstraight.tree hread (not_isPrefix_of_concat hout)
  · rw [Plan.admits, h.keeps directory names name hnames hout hread.list hname, hadmits.1,
      h.takes hnames hout hadmits.2]
    rfl

theorem filter_found_eq (hstraight : IsStraight p log w) (hstraight' : IsStraight p' log' w') :
    w.found.filter (¬d <+: ·) = w'.found.filter (¬d <+: ·) := by
  have hascending := hstraight.ends.ascending_found hstraight.tree
  have hascending' := hstraight'.ends.ascending_found hstraight'.tree
  refine (hascending.filter _).eq_of_mem_iff (hascending'.filter _) fun route => ?_
  rw [List.mem_filter, List.mem_filter, decide_eq_true_iff]
  exact and_congr_left fun hout =>
    ⟨h.mem_found hstraight hstraight' hout, h.symm.mem_found hstraight' hstraight hout⟩

end AgreesOutside

/-! ## Removing an ignore file -/

/-- No other directory below the root has the path of the directory in other letters. -/
def HasOwnLetters (v : Volume) (root d : Route) : Prop :=
  ∀ route entries, v.top.at? (root ++ route) = some (.directory entries) →
    route.text.map Ignore.capital = d.text.map Ignore.capital → route = d

section Drops

variable (h : Ignore.Drops v v' root d)

include h

theorem outlineAt_eq (hout : ¬d <+: route) : v'.outlineAt (root ++ route) = v.outlineAt (root ++ route) := by
  refine h.removes.outline_at? (fun heq => hout (List.append_cancel_left heq ▸ List.prefix_rfl)) fun hstarts => hout ?_
  rw [List.append_assoc, List.prefix_append_right_inj] at hstarts
  exact (List.prefix_append d _).trans hstarts

theorem passesBy (hletters : HasOwnLetters v root d) (hnames : ∀ other ∈ directory ++ [name], IsEntryName other)
    (hout : ¬d <+: directory ++ [name]) (hlist : v.list (root ++ directory) = .ok names) :
    Ignore.PassesBy d (directory ++ [name]) := by
  refine ⟨hout, fun k hk hsame => ?_⟩
  rw [List.length_append, List.length_singleton] at hk
  rw [List.take_append_of_le_length (by omega)] at hsame ⊢
  -- what lies on the way to a directory that can be read is a directory, and of those only one has these letters
  have hdirectory := h.isEntryName_append (List.forall_mem_append.mp hnames).1
  obtain ⟨-, houtline⟩ := (Volume.list_eq_ok_iff_outlineAt h.links hdirectory).mp hlist
  obtain ⟨node, hat, hnode⟩ := Option.map_eq_some_iff.mp houtline
  cases node with
  | file => cases hnode
  | link => cases hnode
  | directory entries =>
    rw [← List.take_append_drop k directory, ← List.append_assoc] at hat
    obtain ⟨above, habove⟩ := Node.exists_directory_of_at?_append hat
    exact hletters _ above habove hsame

/-- Without an ignore file whose rules stay below its directory, nothing is different outside it. -/
theorem agreesOutside_of_drops (hd : Ignore.IsScope d) (hletters : HasOwnLetters v root d)
    (hread : v.read (root ++ Ignore.filePath d) = .ok content)
    (hlines : ∀ line ∈ content.linesWithReturns, Ignore.StaysBelow d line) :
    AgreesOutside d ⟨v, root, options, some (Ignore.load v options.excluded root).rules⟩
      ⟨v', root, options, some (Ignore.load v' options.excluded root).rules⟩ where
  root := rfl
  options := rfl
  real := by
    intro route hnames hout real
    have hall := h.isEntryName_append hnames
    show v.realRoute (root ++ route) = _ ↔ v'.realRoute (root ++ route) = _
    rw [Volume.realRoute_eq_ok_iff_outlineAt h.links hall, Volume.realRoute_eq_ok_iff_outlineAt h.links' hall, h.faults,
      outlineAt_eq h hout]
  list := by
    intro route hnames hout names
    have hall := h.isEntryName_append hnames
    show v.list (root ++ route) = _ ↔ v'.list (root ++ route) = _
    rw [Volume.list_eq_ok_iff_outlineAt h.links hall, Volume.list_eq_ok_iff_outlineAt h.links' hall, h.faults,
      outlineAt_eq h hout]
  inspect := by
    intro route hnames hout info
    have hall := h.isEntryName_append hnames
    show v.inspect (root ++ route) = _ ↔ v'.inspect (root ++ route) = _
    rw [Volume.inspect_eq_ok_iff_outlineAt h.links hall, Volume.inspect_eq_ok_iff_outlineAt h.links' hall, h.faults,
      outlineAt_eq h hout]
  keeps := by
    intro directory names name hnames hout hlist _
    have hpasses := passesBy h hletters hnames hout hlist
    have hfile : Ignore.fileLines d content = content.linesWithReturns.map (Ignore.scopedLine d) := if_neg hd.ne_nil
    have hverdict (path : Text) (hpath : Ignore.IsOutside d path) :
        Ignore.verdict (Ignore.load v options.excluded root).rules path =
          Ignore.verdict (Ignore.load v' options.excluded root).rules path := by
      refine Ignore.verdict_load_eq h hread (fun line hline => ?_) options.excluded
      rw [hfile, List.mem_map] at hline
      obtain ⟨original, horiginal, rfl⟩ := hline
      exact Ignore.isForeign_scopedLine hd (hlines original horiginal) hpath
    show (!Ignore.ignores _ _) = !Ignore.ignores _ _
    rw [hpasses.ignores_eq hnames (by simp) hverdict]

end Drops

/-- A scan that follows ignore files through a tree without links is a straight walk. -/
theorem exists_isStraight (htree : v.top.IsTree) (hlinks : v.top.IsLinkFree)
    (hfollows : options.followsIgnoreFiles = true) (huncapped : options.maxFiles = none)
    (haskable : ∀ names, v.list root = .ok names → ∀ name ∈ names, Ignore.isUnaskable [name] = false) :
    ∃ log w, IsStraight ⟨v, root, options, some (Ignore.load v options.excluded root).rules⟩ log w ∧
      (sourceFiles v options root).files = .ok w.found := by
  obtain ⟨w, log, hends⟩ :
      ∃ w log, Ends ⟨v, root, options, some (Ignore.load v options.excluded root).rules⟩ (.directory []) {} log w :=
    ⟨_, exists_ends _ (Nat.le_refl _)⟩
  have hopen : Plan.IsOpen ⟨v, root, options, some (Ignore.load v options.excluded root).rules⟩ :=
    ⟨huncapped, fun _ => haskable⟩
  refine ⟨log, w, ⟨hopen, htree, fun place hplace => hlinks.at? (Volume.at?_of_locate hplace), hends⟩, ?_⟩
  exact files_of_ends (plan_of_follows v root hfollows ▸ hends) (hends.unaskable_of_isOpen hopen rfl (.start _))

theorem drops_remove (htree : v.top.IsTree) (hlinks : v.top.IsLinkFree) (hroot : ∀ name ∈ root, IsEntryName name)
    (hd : ∀ name ∈ d, IsEntryName name) (hread : v.read (root ++ Ignore.filePath d) = .ok content) :
    Ignore.Drops v (v.remove (root ++ Ignore.filePath d)) root d := by
  have hnames : ∀ name ∈ root ++ Ignore.filePath d, IsEntryName name :=
    List.forall_mem_append.mpr ⟨hroot, List.forall_mem_append.mpr ⟨hd, List.forall_mem_singleton.mpr (by decide)⟩⟩
  obtain ⟨-, bytes, houtline, -⟩ := (Volume.read_eq_ok_iff_outlineAt hlinks hnames).mp hread
  obtain ⟨node, hat, -⟩ := Option.map_eq_some_iff.mp houtline
  refine ⟨htree, hlinks, hroot, rfl, ?_⟩
  rw [Volume.remove, Ignore.filePath, ← List.append_assoc]
  rw [Ignore.filePath, ← List.append_assoc] at hat
  exact Node.removes hat

/-- A nested ignore file has no effect outside its directory if its lines stay below it: each is blank, a comment, or a
valid pattern that leads to something in the directory. The path of the directory has to be literal in patterns, and
no other directory may differ from it in the case of letters alone. Then the scan without the file finds, in the same
order, the same files outside. -/
theorem sourceFiles_remove (htree : v.top.IsTree) (hlinks : v.top.IsLinkFree) (hroot : ∀ name ∈ root, IsEntryName name)
    (hfollows : options.followsIgnoreFiles = true) (huncapped : options.maxFiles = none)
    (haskable : ∀ names, v.list root = .ok names → ∀ name ∈ names, Ignore.isUnaskable [name] = false)
    (hd : Ignore.IsScope d) (hletters : HasOwnLetters v root d)
    (hread : v.read (root ++ Ignore.filePath d) = .ok content)
    (hlines : ∀ line ∈ content.linesWithReturns, Ignore.StaysBelow d line) :
    ∃ routes routes', (sourceFiles v options root).files = .ok routes ∧
      (sourceFiles (v.remove (root ++ Ignore.filePath d)) options root).files = .ok routes' ∧
      routes.filter (¬d <+: ·) = routes'.filter (¬d <+: ·) := by
  have hdrops := drops_remove htree hlinks hroot hd.names hread
  have hagrees : AgreesOutside d ⟨v, root, options, _⟩ ⟨_, root, options, _⟩ :=
    agreesOutside_of_drops hdrops hd hletters hread hlines
  obtain ⟨log, w, hstraight, hfiles⟩ := exists_isStraight htree hlinks hfollows huncapped haskable
  have haskable' : ∀ names, (v.remove (root ++ Ignore.filePath d)).list root = .ok names →
      ∀ name ∈ names, Ignore.isUnaskable [name] = false := by
    intro names hlist
    have hout : ¬d <+: [] := fun hstarts => hd.ne_nil (List.prefix_nil.mp hstarts)
    have hsame := hagrees.list [] nofun hout names
    simp only [List.append_nil] at hsame
    exact haskable names (hsame.mpr hlist)
  obtain ⟨log', w', hstraight', hfiles'⟩ :=
    exists_isStraight (hdrops.removes.isTree htree) hdrops.links' hfollows huncapped haskable'
  exact ⟨w.found, w'.found, hfiles, hfiles', hagrees.filter_found_eq hstraight hstraight'⟩

/-- A nested ignore file that ties a file to its directory. -/
def generated : Volume where
  top := .directory [("gen.c", .file []), ("src", .directory [(".gitignore", .file (Text.toBytes "/gen.c")),
    ("gen.c", .file []), ("main.c", .file [])])]

theorem hasOwnLetters_generated : HasOwnLetters generated [] ["src"] := by
  have hall : ∀ route ∈ generated.top.directoryRoutes,
      route.text.map Ignore.capital = (Route.text ["src"]).map Ignore.capital → route = ["src"] := by decide
  exact fun route entries hat => hall route (Node.mem_directoryRoutes hat)

theorem load_generated_remove :
    Ignore.load (generated.remove ["src", ".gitignore"]) [".git", "node_modules"] [] = ⟨[], true⟩ := by
  have hfiles : (Ignore.directoriesWithFile [] (generated.remove ["src", ".gitignore"]).top).filter
      (!Ignore.liesInExcluded [".git", "node_modules"] ·) = [] := by decide +kernel
  exact load_eq_addFiles rfl hfiles (Nat.zero_le 1)

theorem files_generated_remove :
    (sourceFiles (generated.remove ["src", ".gitignore"]) { followsIgnoreFiles := true } []).files =
      .ok [["gen.c"], ["src", "gen.c"], ["src", "main.c"]] := by
  have hwalk : Walk.through ⟨generated.remove ["src", ".gitignore"], [], { followsIgnoreFiles := true }, some []⟩
      (depthLimit (generated.remove ["src", ".gitignore"])) [] {} =
        ⟨[["gen.c"], ["src", "gen.c"], ["src", "main.c"]], [["src"], []], [], none⟩ := by cbv
  exact files_of_through rfl load_generated_remove hwalk rfl

/-- The file of that name outside is found with the ignore file as without it. -/
theorem sourceFiles_remove_generated :
    ∃ routes, (sourceFiles generated { followsIgnoreFiles := true } []).files = .ok routes ∧
      routes.filter (¬(["src"] : Route) <+: ·) = ([["gen.c"]] : List Route) := by
  have haskable : ∀ names, generated.list [] = .ok names → ∀ name ∈ names, Ignore.isUnaskable [name] = false := by
    intro names hnames
    obtain rfl : [("gen.c" : Text), "src"] = names := Except.ok.inj hnames
    decide
  have hread : generated.read ([] ++ Ignore.filePath ["src"]) = .ok "/gen.c" := by rfl
  have hlines : ∀ line ∈ Text.linesWithReturns "/gen.c", Ignore.StaysBelow ["src"] line := by
    have hdown : Ignore.LeadsDown "/gen.c" := by constructor <;> decide
    have hline : Text.linesWithReturns "/gen.c" = ["/gen.c"] := by decide
    rw [hline]
    exact List.forall_mem_singleton.mpr (.inr (.inr ⟨hdown, by decide⟩))
  obtain ⟨routes, routes', hroutes, hroutes', hsame⟩ :=
    @sourceFiles_remove generated { followsIgnoreFiles := true } [] ["src"] "/gen.c" (by decide) (by decide)
      (List.forall_mem_nil _) rfl rfl haskable Ignore.isScope_src hasOwnLetters_generated hread hlines
  obtain rfl := Except.ok.inj (hroutes'.symm.trans files_generated_remove)
  exact ⟨routes, hroutes, hsame.trans (by decide)⟩

/-- A nested ignore file whose one line climbs out of its directory. -/
def climbing : Volume where
  top := .directory [("a.c", .file []), ("src", .directory [(".gitignore", .file (Text.toBytes "../a.c")),
    ("b.c", .file [])])]

def climbingRules : List Ignore.Rule :=
  [⟨false, .anyLevel, (Text.ofString "a.c").map Ignore.literalPiece, .entry⟩]

theorem load_climbing : Ignore.load climbing [".git", "node_modules"] [] = ⟨climbingRules, true⟩ := by
  have hfiles : (Ignore.directoriesWithFile [] climbing.top).filter
      (!Ignore.liesInExcluded [".git", "node_modules"] ·) = ([["src"]] : List Route) := by decide +kernel
  exact load_eq_addFiles rfl hfiles (Nat.le_refl 1)

theorem load_climbing_remove :
    Ignore.load (climbing.remove ["src", ".gitignore"]) [".git", "node_modules"] [] = ⟨[], true⟩ := by
  have hfiles : (Ignore.directoriesWithFile [] (climbing.remove ["src", ".gitignore"]).top).filter
      (!Ignore.liesInExcluded [".git", "node_modules"] ·) = [] := by decide +kernel
  exact load_eq_addFiles rfl hfiles (Nat.zero_le 1)

/-- The file outside is lost with the ignore file, and found without it. -/
theorem sourceFiles_climbing :
    climbing.top.IsTree ∧ climbing.top.IsLinkFree ∧
    (sourceFiles climbing { followsIgnoreFiles := true } []).files = .ok [["src", "b.c"]] ∧
    (sourceFiles (climbing.remove ["src", ".gitignore"]) { followsIgnoreFiles := true } []).files =
      .ok [["a.c"], ["src", "b.c"]] := by
  have hwalk : Walk.through ⟨climbing, [], { followsIgnoreFiles := true }, some climbingRules⟩
      (depthLimit climbing) [] {} = ⟨[["src", "b.c"]], [["src"], []], [], none⟩ := by cbv
  have hwalk' : Walk.through ⟨climbing.remove ["src", ".gitignore"], [], { followsIgnoreFiles := true }, some []⟩
      (depthLimit (climbing.remove ["src", ".gitignore"])) [] {} =
        ⟨[["a.c"], ["src", "b.c"]], [["src"], []], [], none⟩ := by cbv
  exact ⟨by decide, by decide, files_of_through rfl load_climbing hwalk rfl,
    files_of_through rfl load_climbing_remove hwalk' rfl⟩

end CCompletion.Scan
