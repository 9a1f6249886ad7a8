import CCompletion.Proofs.Ignore.Scoped
import CCompletion.Proofs.Volume.Removal

/-!
# The rules of a tree without one of its ignore files

The ignore files of a tree are found, put in order and read one after the other. When one of them is removed, the others
stay and are read in the same order. So paths that none of its rules matches are judged as before.
-/

namespace CCompletion.Ignore

/-! ## Sorting -/

section Sorting

variable {α : Type} {le : α → α → Bool} {q : α → Bool} {l m l' m' : List α}

/-- Where a list turns from what a test refuses to what it holds of is known. -/
theorem append_inj_of_forall (hl : ∀ a ∈ l, q a = false) (hl' : ∀ a ∈ l', q a = false) (hm : ∀ a ∈ m, q a = true)
    (hm' : ∀ a ∈ m', q a = true) (h : l ++ m = l' ++ m') : l = l' ∧ m = m' := by
  have hfilter (before behind : List α) (hbefore : ∀ a ∈ before, q a = false) (hbehind : ∀ a ∈ behind, q a = true) :
      (before ++ behind).filter (!q ·) = before := by
    rw [List.filter_append, List.filter_eq_self.mpr fun a ha => by rw [hbefore a ha]; rfl,
      List.filter_eq_nil_iff.mpr fun a ha => by rw [hbehind a ha]; decide, List.append_nil]
  have hstart : l = l' := by rw [← hfilter l m hl hm, h, hfilter l' m' hl' hm']
  subst hstart
  exact ⟨rfl, List.append_cancel_left h⟩

/-- Leaving items out does not change the order of the others. -/
theorem mergeSort_filter (htrans : ∀ a b c, le a b = true → le b c = true → le a c = true)
    (htotal : ∀ a b, (le a b || le b a) = true) (keeps : α → Bool) (l : List α) :
    (l.filter keeps).mergeSort le = (l.mergeSort le).filter keeps := by
  induction l with
  | nil => simp
  | cons a l ih =>
    obtain ⟨before, behind, hall, hrest, hbefore⟩ := List.mergeSort_cons htrans htotal a l
    rw [hrest] at ih
    cases hkept : keeps a with
    | false => rw [List.filter_cons_of_neg (by rw [hkept]; decide), ih, hall, List.filter_append, List.filter_append,
        List.filter_cons_of_neg (by rw [hkept]; decide)]
    | true =>
      rw [List.filter_cons_of_pos hkept]
      obtain ⟨before', behind', hall', hrest', hbefore'⟩ := List.mergeSort_cons htrans htotal a (l.filter keeps)
      -- with all items and with some left out, the item stands behind just those that come strictly before it
      have hbehind : ∀ b ∈ behind, le a b = true := by
        have hsorted := List.pairwise_mergeSort htrans htotal (a :: l)
        rw [hall] at hsorted
        exact fun b hb => List.rel_of_pairwise_cons (List.pairwise_append.mp hsorted).2.1 hb
      have hbehind' : ∀ b ∈ behind', le a b = true := by
        have hsorted := List.pairwise_mergeSort htrans htotal (a :: l.filter keeps)
        rw [hall'] at hsorted
        exact fun b hb => List.rel_of_pairwise_cons (List.pairwise_append.mp hsorted).2.1 hb
      rw [ih, List.filter_append] at hrest'
      obtain ⟨hstart, hend⟩ := append_inj_of_forall (q := le a)
        (fun b hb => by simpa using hbefore b (List.mem_of_mem_filter hb)) (fun b hb => by simpa using hbefore' b hb)
        (fun b hb => hbehind b (List.mem_of_mem_filter hb)) hbehind' hrest'
      rw [hall', hall, List.filter_append, List.filter_cons_of_pos hkept, hstart, hend]

end Sorting

variable {node node' : Node} {es : List (Text × Node)} {name : Text} {d r here root : Route} {v v' : Volume}
  {excluded : List Text} {rules rules' : List Rule} {path : Text} {lines : List Text} {l l' : Loaded}

/-! ## Ignore files -/

mutual

/-- The directories with an ignore file lie below where the search begins, and no name on the way begins with a point. -/
theorem exists_below_of_mem : (node : Node) → {here r : Route} → r ∈ directoriesWithFile here node →
    ∃ below, r = here ++ below ∧ ∀ name ∈ below, name.head? ≠ some (unit '.') ∧ (node.IsTree → IsEntryName name)
  | .directory es, here, r, h => by
    obtain rfl | ⟨e, he, hpoint, below, rfl, hbelow⟩ := exists_below_of_memIn es h
    · exact ⟨[], (List.append_nil _).symm, nofun⟩
    · refine ⟨e.1 :: below, rfl, List.forall_mem_cons.mpr ⟨⟨hpoint, fun htree => ?_⟩, fun name hname => ?_⟩⟩
      · exact htree.isEntryName_of_mem (List.mem_map_of_mem he)
      · refine ⟨(hbelow name hname).1, fun htree => (hbelow name hname).2 ?_⟩
        cases htree with
        | directory _ _ htrees => exact htrees e he
  | .file _, _, _, h => nomatch h
  | .link _, _, _, h => nomatch h

theorem exists_below_of_memIn : (es : List (Text × Node)) → {here r : Route} → r ∈ directoriesWithFileIn here es →
    r = here ∨ ∃ e ∈ es, e.1.head? ≠ some (unit '.') ∧ ∃ below, r = here ++ e.1 :: below ∧
      ∀ name ∈ below, name.head? ≠ some (unit '.') ∧ (e.2.IsTree → IsEntryName name)
  | [], _, _, h => nomatch h
  | (name, node) :: es, here, r, h => by
    rw [directoriesWithFileIn, List.mem_append, List.mem_append] at h
    obtain (h | h) | h := h
    · split at h
      · exact .inl (List.mem_singleton.mp h)
      · cases h
    · split at h
      · cases h
      · rename_i hpoint
        obtain ⟨below, rfl, hbelow⟩ := exists_below_of_mem node h
        exact .inr ⟨(name, node), List.mem_cons_self, hpoint, below, List.append_assoc .., hbelow⟩
    · exact (exists_below_of_memIn es h).imp_right fun ⟨e, he, hrest⟩ => ⟨e, List.mem_cons_of_mem _ he, hrest⟩

end

theorem isPrefix_of_mem (h : r ∈ directoriesWithFile here node) : here <+: r := by
  obtain ⟨below, rfl, _⟩ := exists_below_of_mem node h
  exact List.prefix_append here below

theorem directoriesWithFileIn_cons (here : Route) (e : Text × Node) (es : List (Text × Node)) :
    directoriesWithFileIn here (e :: es) = (if e.1 = fileName then [here] else []) ++
      (if e.1.head? = some (unit '.') then [] else directoriesWithFile (here ++ [e.1]) e.2) ++
      directoriesWithFileIn here es := rfl

theorem ne_of_append_isPrefix (h : here ++ [name] <+: r) : r ≠ here := by
  rintro rfl
  have hlength := h.length_le
  rw [List.length_append, List.length_singleton] at hlength
  omega

theorem ne_append_cons_of_isPrefix {other : Text} (h : here ++ [other] <+: r) (hother : other ≠ name) :
    r ≠ here ++ name :: d := by
  rintro rfl
  rw [List.prefix_append_right_inj, List.cons_prefix_cons] at h
  exact hother h.1

theorem filter_ite_nil {α : Type} (c : Prop) [Decidable c] (keeps : α → Bool) (l : List α) :
    (if c then [] else l).filter keeps = if c then [] else l.filter keeps := by
  split <;> rfl

/-- Without its ignore file, a directory is no longer among those that hold one. -/
theorem directoriesWithFileIn_filter (here : Route) (es : List (Text × Node)) :
    directoriesWithFileIn here (es.filter fun e => e.1 ≠ fileName) =
      (directoriesWithFileIn here es).filter (· ≠ here) := by
  induction es with
  | nil => rfl
  | cons e es ih =>
    rw [directoriesWithFileIn_cons, List.filter_append, List.filter_append, filter_ite_nil]
    by_cases he : e.1 = fileName
    · have hpoint : e.1.head? = some (unit '.') := he ▸ by decide
      rw [List.filter_cons_of_neg (by simpa using he), ih, if_pos he, if_pos hpoint]
      simp
    · have hbelow : (directoriesWithFile (here ++ [e.1]) e.2).filter (· ≠ here) =
          directoriesWithFile (here ++ [e.1]) e.2 :=
        List.filter_eq_self.mpr fun r hr => decide_eq_true (ne_of_append_isPrefix (isPrefix_of_mem hr))
      rw [List.filter_cons_of_pos (by simpa using he), directoriesWithFileIn_cons, ih, if_neg he, hbelow]
      rfl

theorem filter_directoriesWithFileIn_of_notMem (h : name ∉ es.map (·.1)) (here d : Route) :
    (directoriesWithFileIn here es).filter (· ≠ here ++ name :: d) = directoriesWithFileIn here es := by
  refine List.filter_eq_self.mpr fun r hr => decide_eq_true ?_
  obtain rfl | ⟨e, he, -, below, rfl, -⟩ := exists_below_of_memIn es hr
  · exact fun heq => List.cons_ne_nil name d (List.append_right_eq_self.mp heq.symm)
  · exact fun heq => h ((List.cons.inj (List.append_cancel_left heq)).1 ▸ List.mem_map_of_mem he)

theorem directoriesWithFileIn_setEntry {child child' : Node} (hchild : (Node.directory es).child? name = some child)
    (hnodup : (es.map (·.1)).Nodup)
    (hbelow : directoriesWithFile (here ++ [name]) child' =
      (directoriesWithFile (here ++ [name]) child).filter (· ≠ here ++ name :: d)) :
    directoriesWithFileIn here (Node.setEntry name child' es) =
      (directoriesWithFileIn here es).filter (· ≠ here ++ name :: d) := by
  have hfile (c : Prop) [Decidable c] :
      (if c then [here] else []).filter (· ≠ here ++ name :: d) = if c then [here] else [] := by
    have hne : here ≠ here ++ name :: d := fun heq => List.cons_ne_nil name d (List.append_right_eq_self.mp heq.symm)
    split <;> simp [hne]
  induction es with
  | nil => cases hchild
  | cons e es ih =>
    rw [List.map_cons, List.nodup_cons] at hnodup
    rw [directoriesWithFileIn_cons, List.filter_append, List.filter_append, hfile, filter_ite_nil]
    obtain ⟨other, node⟩ := e
    by_cases he : other = name
    · subst he
      obtain rfl : node = child := by simpa [Node.child?, Node.entries] using hchild
      rw [Node.setEntry, if_pos rfl, directoriesWithFileIn_cons, hbelow,
        filter_directoriesWithFileIn_of_notMem hnodup.1]
    · have hrest : (Node.directory es).child? name = some child := by
        simpa [Node.child?, Node.entries, he] using hchild
      have hother : (directoriesWithFile (here ++ [other]) node).filter (· ≠ here ++ name :: d) =
          directoriesWithFile (here ++ [other]) node :=
        List.filter_eq_self.mpr fun r hr =>
          decide_eq_true (ne_append_cons_of_isPrefix (isPrefix_of_mem hr) he)
      rw [Node.setEntry, if_neg he, directoriesWithFileIn_cons, ih hrest hnodup.2, hother]

/-- The directories that hold an ignore file are the others. -/
theorem directoriesWithFile_of_removes (h : Node.Removes fileName d node node') (htree : node.IsTree) (here : Route) :
    directoriesWithFile here node' = (directoriesWithFile here node).filter (· ≠ here ++ d) := by
  induction h generalizing here with
  | here =>
    rw [List.append_nil]
    exact directoriesWithFileIn_filter here _
  | @inside es name child child' d hchild _ ih =>
    have hbelow := ih (htree.child? hchild).2 (here ++ [name])
    rw [List.append_assoc] at hbelow
    exact directoriesWithFileIn_setEntry hchild htree.nodup hbelow

/-! ## Volumes without an ignore file -/

/-- The second volume is the first one, a tree without links, without the ignore file of a directory below the root. -/
structure Drops (v v' : Volume) (root d : Route) : Prop where
  tree : v.top.IsTree
  links : v.top.IsLinkFree
  start : ∀ name ∈ root, IsEntryName name
  faults : v'.faults = v.faults
  removes : Node.Removes fileName (root ++ d) v.top v'.top

theorem not_isPrefix_filePath (hne : r ≠ d) (hr : fileName ∉ r) : ¬root ++ d ++ [fileName] <+: root ++ filePath r := by
  rw [List.append_assoc, List.prefix_append_right_inj, filePath]
  intro hstarts
  obtain heq | hstarts := List.prefix_concat_iff.mp hstarts
  · exact hne (List.append_inj_left' heq rfl).symm
  · exact hr (hstarts.subset (List.mem_append_right d List.mem_cons_self))

namespace Drops

variable (h : Drops v v' root d)

include h

theorem links' : v'.top.IsLinkFree := h.removes.isLinkFree h.links

theorem isEntryName_append (hr : ∀ name ∈ r, IsEntryName name) : ∀ name ∈ root ++ r, IsEntryName name :=
  List.forall_mem_append.mpr ⟨h.start, hr⟩

/-- The other ignore files are found in the same order. -/
theorem fileDirectories_eq (excluded : List Text) :
    fileDirectories v' excluded root = (fileDirectories v excluded root).filter (· ≠ d) := by
  obtain ⟨es, -, hat, -⟩ := h.removes.exists_directory
  rw [Node.at?_append, Option.bind_eq_some_iff] at hat
  obtain ⟨node, hroot, -⟩ := hat
  obtain ⟨node', hroot', hremoves⟩ := h.removes.exists_at? hroot
  have hlocate := Volume.locate_eq_of_at? h.links h.start hroot
  have hlocate' := Volume.locate_eq_of_at? h.links' h.start hroot'
  have hfiles := directoriesWithFile_of_removes hremoves (h.tree.at? hroot).2 []
  rw [List.nil_append] at hfiles
  simp only [fileDirectories, hlocate, hlocate', hfiles]
  rw [← mergeSort_filter (fun _ _ _ => by simpa using Nat.le_trans) fun _ _ => by simpa using Nat.le_total _ _,
    List.filter_filter, List.filter_filter]
  simp only [Bool.and_comm]

theorem names_of_mem_fileDirectories (hr : r ∈ fileDirectories v excluded root) :
    (∀ name ∈ r, IsEntryName name) ∧ fileName ∉ r := by
  rw [fileDirectories] at hr
  split at hr
  · rename_i real node hlocate
    have htree := (h.tree.at? (Volume.at?_of_locate hlocate)).2
    obtain ⟨below, rfl, hbelow⟩ := exists_below_of_mem node (List.mem_of_mem_filter (List.mem_mergeSort.mp hr))
    exact ⟨fun name hname => (hbelow name hname).2 htree, fun hfile => (hbelow fileName hfile).1 (by decide)⟩
  · cases hr

theorem read_eq_ok_iff (hnames : ∀ name ∈ r, IsEntryName name) (hne : r ≠ d) (hr : fileName ∉ r) {content : Text} :
    v'.read (root ++ filePath r) = .ok content ↔ v.read (root ++ filePath r) = .ok content := by
  have hall : ∀ name ∈ root ++ filePath r, IsEntryName name :=
    h.isEntryName_append (List.forall_mem_append.mpr ⟨hnames, List.forall_mem_singleton.mpr (by decide)⟩)
  have hfile {bytes : List UInt8} : v'.outlineAt (root ++ filePath r) = some (.file bytes) ↔
      v.outlineAt (root ++ filePath r) = some (.file bytes) :=
    h.removes.outline_eq_file_iff (not_isPrefix_filePath hne hr)
  rw [Volume.read_eq_ok_iff_outlineAt h.links hall, Volume.read_eq_ok_iff_outlineAt h.links' hall, h.faults]
  simp only [hfile]

end Drops

/-! ## Rules that do not matter -/

/-- The line is valid, and if there is a rule on it, that rule does not match the path. -/
def IsForeign (path line : Text) : Prop :=
  ∃ rule?, Rule.ofLine? line = some rule? ∧ ∀ rule ∈ rule?, rule.pattern.matches path = false

theorem verdict_append (rules more : List Rule) (path : Text) :
    verdict (rules ++ more) path = more.foldl (Rule.revise path) (verdict rules path) := List.foldl_append

theorem addLines_of_isForeign (hlines : ∀ line ∈ lines, IsForeign path line) (l : Loaded) :
    verdict (l.addLines lines).rules path = verdict l.rules path ∧ (l.addLines lines).isWhole = l.isWhole := by
  induction lines generalizing l with
  | nil => exact ⟨rfl, rfl⟩
  | cons line lines ih =>
    obtain ⟨⟨rule?, hrule, hforeign⟩, hlines⟩ := List.forall_mem_cons.mp hlines
    simp only [Loaded.addLines, hrule]
    obtain ⟨hverdict, hwhole⟩ := ih hlines { l with rules := l.rules ++ rule?.toList }
    refine ⟨hverdict.trans ?_, hwhole⟩
    rw [verdict_append]
    cases rule? with
    | none => rfl
    | some rule =>
      show Rule.revise path _ rule = _
      rw [Rule.revise, hforeign rule rfl]
      rfl

theorem addLines_congr (lines : List Text) (hverdict : verdict l.rules path = verdict l'.rules path)
    (hwhole : l.isWhole = l'.isWhole) :
    verdict (l.addLines lines).rules path = verdict (l'.addLines lines).rules path ∧
      (l.addLines lines).isWhole = (l'.addLines lines).isWhole := by
  induction lines generalizing l l' with
  | nil => exact ⟨hverdict, hwhole⟩
  | cons line lines ih =>
    rw [Loaded.addLines, Loaded.addLines]
    cases Rule.ofLine? line with
    | none => exact ⟨hverdict, rfl⟩
    | some rule? =>
      exact ih (by rw [verdict_append, verdict_append, hverdict]) hwhole

section Loading

variable (h : Drops v v' root d) {content : Text} (hread : v.read (root ++ filePath d) = .ok content)
  (hlines : ∀ line ∈ fileLines d content, IsForeign path line)

include h hread hlines

theorem verdict_addFiles_eq {ds : List Route}
    (hds : ∀ r ∈ ds, (∀ name ∈ r, IsEntryName name) ∧ fileName ∉ r) (hwhole : l.isWhole = true)
    (hwhole' : l'.isWhole = true) (hverdict : verdict l.rules path = verdict l'.rules path) :
    verdict (Loaded.addFiles v root l ds).rules path =
      verdict (Loaded.addFiles v' root l' (ds.filter (· ≠ d))).rules path := by
  induction ds generalizing l l' with
  | nil => exact hverdict
  | cons r ds ih =>
    obtain ⟨⟨hnames, hfile⟩, hds⟩ := List.forall_mem_cons.mp hds
    by_cases hr : r = d
    · -- the file is read on one side alone, where it leaves the verdict and stops nothing
      subst hr
      obtain ⟨hsame, hstill⟩ := addLines_of_isForeign hlines l
      rw [List.filter_cons_of_neg (by simp), Loaded.addFiles, hread]
      simp only [hstill, hwhole, if_true]
      exact ih hds (hstill.trans hwhole) hwhole' (hsame.trans hverdict)
    · rw [List.filter_cons_of_pos (by simpa using hr), Loaded.addFiles, Loaded.addFiles]
      cases hcontent : v.read (root ++ filePath r) with
      | error e =>
        have herror : ∃ e', v'.read (root ++ filePath r) = .error e' := by
          cases hcontent' : v'.read (root ++ filePath r) with
          | error e' => exact ⟨e', rfl⟩
          | ok content' => exact nomatch hcontent.symm.trans ((h.read_eq_ok_iff hnames hr hfile).mp hcontent')
        obtain ⟨e', herror⟩ := herror
        rw [herror]
        exact hverdict
      | ok content' =>
        rw [(h.read_eq_ok_iff hnames hr hfile).mpr hcontent]
        obtain ⟨hsame, hstill⟩ := addLines_congr (fileLines r content') hverdict (hwhole.trans hwhole'.symm)
        simp only [hstill]
        split
        · rename_i hgoes
          exact ih hds (hstill.trans hgoes) hgoes hsame
        · exact hsame

/-- A path that the rules of the file do not match is judged alike without the file. -/
theorem verdict_load_eq (excluded : List Text) :
    verdict (load v excluded root).rules path = verdict (load v' excluded root).rules path := by
  rw [load, load, h.fileDirectories_eq]
  exact verdict_addFiles_eq h hread hlines (fun r hr => h.names_of_mem_fileDirectories hr) rfl rfl rfl

end Loading

end CCompletion.Ignore
