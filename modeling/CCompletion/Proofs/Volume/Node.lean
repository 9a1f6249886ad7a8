import CCompletion.Volume.Node
import Mathlib.Data.List.Nodup

/-!
# Trees

In a tree each entry of a directory has a name of its own, so that a route leads to one node at most. The routes
to the directories of a tree are as many as its directories.
-/

namespace CCompletion

/-- A name that an entry of a directory can have: one that no path reads in another way. -/
structure IsEntryName (name : Text) : Prop where
  ne_nil : name ≠ []
  ne_dot : name ≠ "."
  ne_dots : name ≠ ".."
  slash_notMem : unit '/' ∉ name

instance (name : Text) : Decidable (IsEntryName name) :=
  decidable_of_iff (name ≠ [] ∧ name ≠ "." ∧ name ≠ ".." ∧ unit '/' ∉ name)
    ⟨fun ⟨hnil, hdot, hdots, hslash⟩ => ⟨hnil, hdot, hdots, hslash⟩,
      fun h => ⟨h.ne_nil, h.ne_dot, h.ne_dots, h.slash_notMem⟩⟩

namespace Route

variable {root r s : Route}

theorem text_eq_intercalate (r : Route) : text r = [unit '/'].intercalate r := by
  have hslash : Text.ofString "/" = [unit '/'] := by decide
  rw [text, Text.joinWith, hslash]

theorem text_singleton (name : Text) : text [name] = name := by rw [text_eq_intercalate, List.intercalate_singleton]

theorem text_cons (name : Text) (hr : r ≠ []) : text (name :: r) = name ++ unit '/' :: text r := by
  rw [text_eq_intercalate, text_eq_intercalate, List.intercalate_cons_of_ne_nil hr, List.append_assoc,
    List.singleton_append]

theorem text_append (hr : r ≠ []) (hs : s ≠ []) : text (r ++ s) = text r ++ unit '/' :: text s := by
  induction r with
  | nil => exact absurd rfl hr
  | cons name r ih =>
    rw [List.cons_append, text_cons name (List.append_ne_nil_of_right_ne_nil r hs)]
    cases r with
    | nil => rw [List.nil_append, text_singleton]
    | cons other r =>
      have hne := List.cons_ne_nil other r
      rw [ih hne, text_cons name hne, List.append_assoc, List.cons_append]

theorem eq_of_text_eq (hr : r ≠ []) (hs : s ≠ []) (hnames : ∀ name ∈ r, IsEntryName name)
    (hnames' : ∀ name ∈ s, IsEntryName name) (h : text r = text s) : r = s := by
  rw [text_eq_intercalate, text_eq_intercalate] at h
  rw [← List.splitOn_intercalate (unit '/') (fun name hname => (hnames name hname).slash_notMem) hr, h,
    List.splitOn_intercalate (unit '/') (fun name hname => (hnames' name hname).slash_notMem) hs]

/-- The paths of different routes below a root are different. -/
theorem eq_of_absolute_append_eq (hr : r ≠ []) (hs : s ≠ []) (hnames : ∀ name ∈ r, IsEntryName name)
    (hnames' : ∀ name ∈ s, IsEntryName name) (h : absolute (root ++ r) = absolute (root ++ s)) : r = s := by
  have htext := List.tail_eq_of_cons_eq h
  by_cases hroot : root = []
  · subst hroot
    exact eq_of_text_eq hr hs hnames hnames' htext
  · rw [text_append hroot hr, text_append hroot hs] at htext
    exact eq_of_text_eq hr hs hnames hnames' (List.tail_eq_of_cons_eq (List.append_cancel_left htext))

end Route

namespace Node

variable {node child : Node} {entries : List (Text × Node)} {name : Text} {r : Route}

/-- In each directory the entries have different names. -/
inductive IsTree : Node → Prop
  | file (bytes : List UInt8) : IsTree (.file bytes)
  | link (target : Text) : IsTree (.link target)
  | directory {entries : List (Text × Node)} (nodup : (entries.map (·.1)).Nodup)
      (names : ∀ e ∈ entries, IsEntryName e.1) (below : ∀ e ∈ entries, IsTree e.2) : IsTree (.directory entries)

mutual

/-- Do the entries of each directory have different names, all of them names that entries can have? -/
def hasProperNames : Node → Bool
  | directory es => decide (es.map (·.1)).Nodup && hasProperNamesIn es
  | _ => true

def hasProperNamesIn : List (Text × Node) → Bool
  | [] => true
  | (name, node) :: rest => decide (IsEntryName name) && hasProperNames node && hasProperNamesIn rest

end

mutual

theorem isTree_iff : (node : Node) → node.IsTree ↔ node.hasProperNames = true
  | file bytes => iff_of_true (.file bytes) rfl
  | link target => iff_of_true (.link target) rfl
  | directory es => by
    rw [hasProperNames, Bool.and_eq_true, decide_eq_true_iff, ← isTreeIn_iff es]
    constructor
    · intro h
      cases h with
      | directory nodup names below => exact ⟨nodup, fun e he => ⟨names e he, below e he⟩⟩
    · rintro ⟨nodup, hes⟩
      exact .directory nodup (fun e he => (hes e he).1) fun e he => (hes e he).2

theorem isTreeIn_iff : (es : List (Text × Node)) →
    ((∀ e ∈ es, IsEntryName e.1 ∧ e.2.IsTree) ↔ hasProperNamesIn es = true)
  | [] => iff_of_true nofun rfl
  | (name, node) :: rest => by
    rw [List.forall_mem_cons, hasProperNamesIn, Bool.and_eq_true, Bool.and_eq_true, decide_eq_true_iff,
      ← isTreeIn_iff rest, ← isTree_iff node]

end

instance (node : Node) : Decidable node.IsTree := decidable_of_iff _ (isTree_iff node).symm

/-! ## Children -/

theorem mem_of_child? (h : node.child? name = some child) : (name, child) ∈ node.entries := by
  rw [child?, Option.map_eq_some_iff] at h
  obtain ⟨e, hfind, rfl⟩ := h
  have hname : e.1 = name := by simpa using List.find?_some hfind
  rw [← hname]
  exact List.mem_of_find?_eq_some hfind

theorem eq_directory_of_child? (h : node.child? name = some child) : node = .directory node.entries := by
  have hmem := mem_of_child? h
  cases node with
  | file => cases hmem
  | link => cases hmem
  | directory => rfl

/-! ## Routes -/

theorem at?_cons : node.at? (name :: r) = (node.child? name).bind fun c => c.at? r := rfl

theorem at?_append (r s : Route) : node.at? (r ++ s) = (node.at? r).bind fun n => n.at? s := by
  induction r generalizing node with
  | nil => rfl
  | cons name r ih =>
    rw [List.cons_append, at?_cons, at?_cons]
    cases node.child? name with
    | none => rfl
    | some c => exact ih

theorem at?_append_name (h : node.at? r = some (.directory entries)) :
    node.at? (r ++ [name]) = (Node.directory entries).child? name := by
  rw [at?_append, h, Option.bind_some, at?_cons]
  exact Option.bind_fun_some _

/-- What lies on the way to a directory is a directory. -/
theorem exists_directory_of_at?_append (h : node.at? (r ++ s) = some (.directory entries)) :
    ∃ above, node.at? r = some (.directory above) := by
  rw [at?_append, Option.bind_eq_some_iff] at h
  obtain ⟨child, hchild, hrest⟩ := h
  cases s with
  | nil => exact ⟨entries, hchild.trans hrest⟩
  | cons name s =>
    rw [at?_cons, Option.bind_eq_some_iff] at hrest
    obtain ⟨_, hname, _⟩ := hrest
    exact ⟨child.entries, hchild.trans (congrArg some (eq_directory_of_child? hname))⟩

theorem IsTree.isEntryName_of_mem (h : (Node.directory entries).IsTree) (hname : name ∈ entries.map (·.1)) :
    IsEntryName name := by
  cases h with
  | directory _ names _ =>
    obtain ⟨e, he, rfl⟩ := List.mem_map.mp hname
    exact names e he

theorem IsTree.nodup (h : (Node.directory entries).IsTree) : (entries.map (·.1)).Nodup := by
  cases h with
  | directory nodup _ _ => exact nodup

theorem IsTree.child? (h : node.IsTree) (hchild : node.child? name = some child) : IsEntryName name ∧ child.IsTree := by
  have hmem := mem_of_child? hchild
  cases h with
  | file => cases hmem
  | link => cases hmem
  | directory _ names below => exact ⟨names _ hmem, below _ hmem⟩

theorem IsTree.at? (h : node.IsTree) (hat : node.at? r = some child) :
    (∀ name ∈ r, IsEntryName name) ∧ child.IsTree := by
  induction r generalizing node with
  | nil =>
    obtain rfl := Option.some.inj hat
    exact ⟨nofun, h⟩
  | cons name r ih =>
    rw [at?_cons, Option.bind_eq_some_iff] at hat
    obtain ⟨c, hc, hrest⟩ := hat
    obtain ⟨hname, hc⟩ := h.child? hc
    obtain ⟨hnames, hchild⟩ := ih hc hrest
    exact ⟨List.forall_mem_cons.mpr ⟨hname, hnames⟩, hchild⟩

/-! ## Links -/

/-- The tree has no links. -/
inductive IsLinkFree : Node → Prop
  | file (bytes : List UInt8) : IsLinkFree (.file bytes)
  | directory {entries : List (Text × Node)} (below : ∀ e ∈ entries, IsLinkFree e.2) : IsLinkFree (.directory entries)

mutual

def hasNoLink : Node → Bool
  | file _ => true
  | link _ => false
  | directory es => hasNoLinkIn es

def hasNoLinkIn : List (Text × Node) → Bool
  | [] => true
  | (_, node) :: rest => hasNoLink node && hasNoLinkIn rest

end

mutual

theorem isLinkFree_iff : (node : Node) → node.IsLinkFree ↔ node.hasNoLink = true
  | file bytes => iff_of_true (.file bytes) rfl
  | link target => iff_of_false nofun nofun
  | directory es => by
    rw [hasNoLink, ← isLinkFreeIn_iff es]
    constructor
    · intro h
      cases h with
      | directory below => exact below
    · exact .directory

theorem isLinkFreeIn_iff : (es : List (Text × Node)) → ((∀ e ∈ es, e.2.IsLinkFree) ↔ hasNoLinkIn es = true)
  | [] => iff_of_true nofun rfl
  | (name, node) :: rest => by
    rw [List.forall_mem_cons, hasNoLinkIn, Bool.and_eq_true, ← isLinkFreeIn_iff rest, ← isLinkFree_iff node]

end

instance (node : Node) : Decidable node.IsLinkFree := decidable_of_iff _ (isLinkFree_iff node).symm

theorem IsLinkFree.at? (h : node.IsLinkFree) (hat : node.at? r = some child) : child.IsLinkFree := by
  induction r generalizing node with
  | nil =>
    obtain rfl := Option.some.inj hat
    exact h
  | cons name r ih =>
    rw [at?_cons, Option.bind_eq_some_iff] at hat
    obtain ⟨c, hc, hrest⟩ := hat
    have hmem := mem_of_child? hc
    cases h with
    | file => cases hmem
    | directory below => exact ih (below _ hmem) hrest

theorem IsLinkFree.at?_ne_link (h : node.IsLinkFree) (r : Route) (target : Text) :
    node.at? r ≠ some (.link target) := by
  intro hat
  cases h.at? hat

/-! ## Directories -/

mutual

/-- The routes to the directories of a tree. -/
def directoryRoutes : Node → List Route
  | directory es => [] :: directoryRoutesIn es
  | _ => []

def directoryRoutesIn : List (Text × Node) → List Route
  | [] => []
  | (name, node) :: rest => (directoryRoutes node).map (name :: ·) ++ directoryRoutesIn rest

end

mutual

theorem length_directoryRoutes : (node : Node) → node.directoryRoutes.length = node.directoryCount
  | directory es => by
    rw [directoryRoutes, directoryCount, List.length_cons, length_directoryRoutesIn es, Nat.add_comm]
  | file _ => rfl
  | link _ => rfl

theorem length_directoryRoutesIn :
    (entries : List (Text × Node)) → (directoryRoutesIn entries).length = directoryCountIn entries
  | [] => rfl
  | (_, node) :: rest => by
    rw [directoryRoutesIn, directoryCountIn, List.length_append, List.length_map, length_directoryRoutes node,
      length_directoryRoutesIn rest]

end

theorem mem_directoryRoutesIn (hmem : (name, child) ∈ entries) (hr : r ∈ child.directoryRoutes) :
    name :: r ∈ directoryRoutesIn entries := by
  induction entries with
  | nil => cases hmem
  | cons e entries ih =>
    rw [directoryRoutesIn, List.mem_append]
    obtain rfl | hmem := List.mem_cons.mp hmem
    · exact .inl (List.mem_map_of_mem hr)
    · exact .inr (ih hmem)

theorem mem_directoryRoutes (h : node.at? r = some (.directory entries)) : r ∈ node.directoryRoutes := by
  induction r generalizing node with
  | nil =>
    obtain rfl := Option.some.inj h
    exact List.mem_cons_self
  | cons name r ih =>
    rw [at?_cons, Option.bind_eq_some_iff] at h
    obtain ⟨c, hc, hrest⟩ := h
    rw [eq_directory_of_child? hc, directoryRoutes]
    exact List.mem_cons_of_mem _ (mem_directoryRoutesIn (mem_of_child? hc) (ih hrest))

end Node
end CCompletion
