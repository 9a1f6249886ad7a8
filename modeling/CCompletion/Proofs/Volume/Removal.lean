import CCompletion.Proofs.Volume.Access

/-!
# Removing an entry

Where there are no links, a call depends on nothing but what stands at its route: the content of a file, or the names in
a directory. When an entry is taken out of a directory, all that stands elsewhere looks as it did before.
-/

namespace CCompletion

namespace Node

variable {node node' new child : Node} {es : List (Text × Node)} {name other file : Text} {d r : Route}

/-! ## Entries -/

theorem child?_setEntry_self : (directory (setEntry name new es)).child? name = some new := by
  induction es with
  | nil => simp [child?, entries, setEntry]
  | cons e es ih =>
    rw [setEntry]
    split
    · rename_i he
      simp [child?, entries, he]
    · rename_i he
      rw [child?, entries, List.find?_cons_of_neg (by simpa using he)]
      exact ih

theorem child?_setEntry_of_ne (h : other ≠ name) :
    (directory (setEntry name new es)).child? other = (directory es).child? other := by
  induction es with
  | nil => simp [child?, entries, setEntry, Ne.symm h]
  | cons e es ih =>
    rw [setEntry]
    split
    · rename_i he
      have hother : ¬e.1 = other := fun heq => h (heq.symm.trans he)
      simp [child?, entries, hother]
    · by_cases hother : e.1 = other
      · simp [child?, entries, hother]
      · rw [child?, child?, entries, entries, List.find?_cons_of_neg (by simpa using hother),
          List.find?_cons_of_neg (by simpa using hother)]
        exact ih

theorem child?_filter_of_ne (h : other ≠ file) :
    (directory (es.filter fun e => e.1 ≠ file)).child? other = (directory es).child? other := by
  rw [child?, child?, entries, entries, List.find?_filter]
  congr 2
  funext e
  by_cases hother : e.1 = other
  · simp [hother, h]
  · simp [hother]

theorem map_fst_setEntry (h : name ∈ es.map (·.1)) : (setEntry name new es).map (·.1) = es.map (·.1) := by
  induction es with
  | nil => cases h
  | cons e es ih =>
    rw [setEntry]
    split
    · rfl
    · rename_i he
      have hrest : name ∈ es.map (·.1) := (List.mem_cons.mp h).resolve_left (Ne.symm he)
      rw [List.map_cons, List.map_cons, ih hrest]

theorem mem_setEntry {e : Text × Node} (h : e ∈ setEntry name new es) : e ∈ es ∨ e = (name, new) := by
  induction es with
  | nil => exact .inr (List.mem_singleton.mp h)
  | cons first es ih =>
    rw [setEntry] at h
    split at h
    · rename_i hfirst
      obtain rfl | h := List.mem_cons.mp h
      · exact .inr (by rw [hfirst])
      · exact .inl (List.mem_cons_of_mem _ h)
    · obtain rfl | h := List.mem_cons.mp h
      · exact .inl List.mem_cons_self
      · exact (ih h).imp_left (List.mem_cons_of_mem _)

theorem mem_map_fst_of_child? (h : (directory es).child? name = some child) : name ∈ es.map (·.1) :=
  List.mem_map_of_mem (mem_of_child? h)

/-! ## Removing -/

/-- The second tree is the first one without the entry `file` of the directory at a route. -/
inductive Removes (file : Text) : Route → Node → Node → Prop
  | here {es : List (Text × Node)} : Removes file [] (directory es) (directory (es.filter fun e => e.1 ≠ file))
  | inside {es : List (Text × Node)} {name : Text} {child child' : Node} {d : Route}
      (hchild : (directory es).child? name = some child) (h : Removes file d child child') :
      Removes file (name :: d) (directory es) (directory (setEntry name child' es))

theorem removes (h : node.at? (d ++ [file]) = some child) : Removes file d node (node.remove (d ++ [file])) := by
  induction d generalizing node with
  | nil =>
    rw [List.nil_append, at?_cons, Option.bind_eq_some_iff] at h
    obtain ⟨c, hc, -⟩ := h
    rw [eq_directory_of_child? hc]
    exact .here
  | cons name d ih =>
    rw [List.cons_append, at?_cons, Option.bind_eq_some_iff] at h
    obtain ⟨c, hc, hrest⟩ := h
    obtain ⟨second, rest, hroute⟩ :=
      List.exists_cons_of_ne_nil (List.append_ne_nil_of_right_ne_nil d (List.cons_ne_nil file []))
    have hbelow := ih hrest
    -- a name with others behind it is gone through, not taken out
    rw [List.cons_append, hroute, remove, hc, ← hroute]
    · have hnode := eq_directory_of_child? hc
      rw [hnode] at hc ⊢
      exact .inside hc hbelow
    · exact List.cons_ne_nil second rest

namespace Removes

theorem isTree (h : Removes file d node node') (htree : node.IsTree) : node'.IsTree := by
  induction h with
  | here =>
    cases htree with
    | directory nodup names below =>
      exact .directory (nodup.sublist (List.filter_sublist.map _)) (fun e he => names e (List.mem_of_mem_filter he))
        fun e he => below e (List.mem_of_mem_filter he)
  | inside hchild _ ih =>
    obtain ⟨hname, hchild'⟩ := htree.child? hchild
    cases htree with
    | directory nodup names below =>
      refine .directory ?_ (fun e he => ?_) fun e he => ?_
      · rwa [map_fst_setEntry (mem_map_fst_of_child? hchild)]
      · obtain he | rfl := mem_setEntry he
        · exact names e he
        · exact hname
      · obtain he | rfl := mem_setEntry he
        · exact below e he
        · exact ih hchild'

theorem isLinkFree (h : Removes file d node node') (hlinks : node.IsLinkFree) : node'.IsLinkFree := by
  induction h with
  | here =>
    cases hlinks with
    | directory below => exact .directory fun e he => below e (List.mem_of_mem_filter he)
  | inside hchild _ ih =>
    cases hlinks with
    | directory below =>
      refine .directory fun e he => ?_
      obtain he | rfl := mem_setEntry he
      · exact below e he
      · exact ih (below _ (mem_of_child? hchild))

end Removes

/-- What is seen of a node at its route. -/
inductive Outline where
  | file (bytes : List UInt8)
  | link (target : Text)
  | directory (names : List Text)

def outline : Node → Outline
  | .file bytes => .file bytes
  | .link target => .link target
  | .directory es => .directory (es.map (·.1))

/-- What a look at the entry tells. -/
def Outline.info? : Outline → Option EntryInfo
  | .file bytes => some (.file bytes.length)
  | .link _ => none
  | .directory _ => some .directory

/-- Nothing looks different but the directory that has lost the entry. -/
theorem Removes.outline_at? (h : Removes file d node node') (hne : r ≠ d) (hr : ¬d ++ [file] <+: r) :
    (node'.at? r).map outline = (node.at? r).map outline := by
  induction h generalizing r with
  | here =>
    cases r with
    | nil => exact absurd rfl hne
    | cons name r =>
      have hname : name ≠ file := fun heq => hr (heq ▸ List.prefix_append [name] r)
      rw [at?_cons, at?_cons, child?_filter_of_ne hname]
  | @inside es name child child' d hchild _ ih =>
    cases r with
    | nil =>
      show some (Outline.directory _) = some (Outline.directory _)
      rw [map_fst_setEntry (mem_map_fst_of_child? hchild)]
    | cons other r =>
      rw [at?_cons, at?_cons]
      by_cases hother : other = name
      · subst hother
        rw [child?_setEntry_self, hchild]
        exact ih (fun heq => hne (heq ▸ rfl)) fun hstarts => hr (List.cons_prefix_cons.mpr ⟨rfl, hstarts⟩)
      · rw [child?_setEntry_of_ne hother]

/-- What is taken out below a route is taken out of the node there. -/
theorem Removes.exists_at? (h : Removes file (r ++ d) node node') (hat : node.at? r = some child) :
    ∃ child', node'.at? r = some child' ∧ Removes file d child child' := by
  induction r generalizing node node' with
  | nil =>
    obtain rfl := Option.some.inj hat
    exact ⟨node', rfl, h⟩
  | cons name r ih =>
    cases h with
    | inside hchild hbelow =>
      rw [at?_cons, hchild, Option.bind_some] at hat
      obtain ⟨child', hat', hchild'⟩ := ih hbelow hat
      exact ⟨child', by rw [at?_cons, child?_setEntry_self, Option.bind_some, hat'], hchild'⟩

theorem Removes.exists_directory (h : Removes file d node node') :
    ∃ es es', node.at? d = some (directory es) ∧ node'.at? d = some (directory es') := by
  induction h with
  | here => exact ⟨_, _, rfl, rfl⟩
  | inside hchild _ ih =>
    obtain ⟨es, es', hat, hat'⟩ := ih
    exact ⟨es, es', by rw [at?_cons, hchild, Option.bind_some, hat],
      by rw [at?_cons, child?_setEntry_self, Option.bind_some, hat']⟩

/-- All other files are as they were. -/
theorem Removes.outline_eq_file_iff (h : Removes file d node node') (hr : ¬d ++ [file] <+: r) {bytes : List UInt8} :
    (node'.at? r).map outline = some (.file bytes) ↔ (node.at? r).map outline = some (.file bytes) := by
  by_cases hne : r = d
  · obtain ⟨es, es', hat, hat'⟩ := h.exists_directory
    rw [hne, hat, hat']
    exact iff_of_false nofun nofun
  · rw [h.outline_at? hne hr]

end Node

namespace Volume

variable {v : Volume} {node : Node} {s real : Route} {call : AccessCall} {place : Place} {found : List Text}
  {info : EntryInfo} {content : Text}

/-! ## Calls without links -/

/-- What is seen at a route. -/
def outlineAt (v : Volume) (s : Route) : Option Node.Outline := (v.top.at? s).map Node.outline

theorem permit_eq_ok_iff : v.permit call s = .ok () ↔ (⟨call, s⟩ : Fault) ∉ v.faults := by
  rw [permit]
  split
  · rename_i hfault
    exact iff_of_false nofun fun h => h hfault
  · rename_i hfault
    exact iff_of_true rfl hfault

section LinkFree

variable (hlinks : v.top.IsLinkFree) (hs : ∀ name ∈ s, IsEntryName name)

include hlinks hs

/-- A route leads to where it says. -/
theorem locate_eq_of_at? (hat : v.top.at? s = some node) : v.locate s = .ok (s, node) := by
  have hleads : Leads v.top 0 [] s (s, node) :=
    .of_at? hs (fun target heq => hlinks.at?_ne_link s target (heq ▸ hat)) hat
  exact locate_eq_ok_iff.mpr ⟨0, Nat.zero_le _, hleads⟩

theorem at?_of_locate_eq (h : v.locate s = .ok place) : place.1 = s ∧ v.top.at? s = some place.2 := by
  obtain ⟨k, -, hleads⟩ := locate_eq_ok_iff.mp h
  have hplace : place.1 = s := hleads.eq_append hs fun below target => hlinks.at?_ne_link _ target
  exact ⟨hplace, hplace ▸ hleads.at?⟩

theorem realRoute_eq_ok_iff_outlineAt : v.realRoute s = .ok real ↔
    (⟨.resolve, s⟩ : Fault) ∉ v.faults ∧ real = s ∧ v.outlineAt s ≠ none := by
  rw [outlineAt, ne_eq, Option.map_eq_none_iff, ← permit_eq_ok_iff]
  constructor
  · intro h
    obtain ⟨_, hpermit, _⟩ := bind_eq_ok h
    obtain ⟨node, hlocate⟩ := exists_locate_of_realRoute h
    obtain ⟨rfl, hat⟩ := at?_of_locate_eq hlinks hs hlocate
    exact ⟨hpermit, rfl, by rw [hat]; exact nofun⟩
  · rintro ⟨hpermit, rfl, hat⟩
    obtain ⟨node, hat⟩ := Option.ne_none_iff_exists'.mp hat
    rw [realRoute, hpermit, locate_eq_of_at? hlinks hs hat]
    rfl

theorem list_eq_ok_iff_outlineAt : v.list s = .ok found ↔
    (⟨.list, s⟩ : Fault) ∉ v.faults ∧ v.outlineAt s = some (.directory found) := by
  rw [outlineAt, Option.map_eq_some_iff, ← permit_eq_ok_iff]
  constructor
  · intro h
    obtain ⟨_, hpermit, _⟩ := bind_eq_ok h
    obtain ⟨real, entries, hlocate, rfl⟩ := exists_locate_of_list h
    exact ⟨hpermit, _, (at?_of_locate_eq hlinks hs hlocate).2, rfl⟩
  · rintro ⟨hpermit, node, hat, hnode⟩
    rw [list, hpermit, locate_eq_of_at? hlinks hs hat]
    cases node with
    | file => cases hnode
    | link => cases hnode
    | directory entries =>
      rw [← Node.Outline.directory.inj hnode]
      rfl

theorem inspect_eq_ok_iff_outlineAt : v.inspect s = .ok info ↔
    (⟨.inspect, s⟩ : Fault) ∉ v.faults ∧ ∃ o, v.outlineAt s = some o ∧ o.info? = some info := by
  rw [outlineAt, ← permit_eq_ok_iff]
  constructor
  · intro h
    obtain ⟨_, hpermit, _⟩ := bind_eq_ok h
    obtain ⟨real, ⟨entries, hlocate, rfl⟩ | ⟨bytes, hlocate, rfl⟩⟩ := exists_locate_of_inspect h
    · exact ⟨hpermit, _, by rw [(at?_of_locate_eq hlinks hs hlocate).2]; rfl, rfl⟩
    · exact ⟨hpermit, _, by rw [(at?_of_locate_eq hlinks hs hlocate).2]; rfl, rfl⟩
  · rintro ⟨hpermit, o, ho, hinfo⟩
    obtain ⟨node, hat, rfl⟩ := Option.map_eq_some_iff.mp ho
    rw [inspect, hpermit, locate_eq_of_at? hlinks hs hat]
    cases node with
    | file => exact congrArg Except.ok (Option.some.inj hinfo)
    | link => cases hinfo
    | directory => exact congrArg Except.ok (Option.some.inj hinfo)

theorem read_eq_ok_iff_outlineAt : v.read s = .ok content ↔
    (⟨.read, s⟩ : Fault) ∉ v.faults ∧ ∃ bytes, v.outlineAt s = some (.file bytes) ∧ Text.ofBytes bytes = content := by
  rw [outlineAt, ← permit_eq_ok_iff]
  constructor
  · intro h
    obtain ⟨_, hpermit, h⟩ := bind_eq_ok h
    obtain ⟨⟨real, node⟩, hlocate, h⟩ := bind_eq_ok h
    have hat := (at?_of_locate_eq hlinks hs hlocate).2
    cases node with
    | file bytes => exact ⟨hpermit, bytes, by rw [hat]; rfl, Except.ok.inj h⟩
    | link => cases h
    | directory => cases h
  · rintro ⟨hpermit, bytes, ho, hcontent⟩
    obtain ⟨node, hat, hnode⟩ := Option.map_eq_some_iff.mp ho
    rw [read, hpermit, locate_eq_of_at? hlinks hs hat]
    cases node with
    | file =>
      obtain rfl := Node.Outline.file.inj hnode
      exact congrArg Except.ok hcontent
    | link => cases hnode
    | directory => cases hnode

end LinkFree

end Volume
end CCompletion
