import CCompletion.Proofs.Scan.Pruning

/-!
# The order of what a scan finds

A walk takes the entries of a directory in the order of their names. So, whatever is in its way, it finds files in the
order of their routes, and what it finds is known by its members.
-/

namespace CCompletion

namespace Route

variable {r s directory : Route} {a b : Text} {routes routes' : List Route}

/-- Each route comes strictly before all that follow it, in the order of their names. -/
def Ascending (routes : List Route) : Prop := routes.Pairwise fun r s => compare r s = .lt

instance : Std.Irrefl fun r s : Route => compare r s = .lt where
  irrefl r h := by
    have heq : compare r r = .eq := Std.ReflCmp.compare_self
    rw [heq] at h
    cases h

instance : Std.Antisymm fun r s : Route => compare r s = .lt where
  antisymm _ _ h h' := absurd h' (Std.OrientedCmp.not_lt_of_lt h)

/-- An ascending list is known by its members. -/
theorem Ascending.eq_of_mem_iff (h : Ascending routes) (h' : Ascending routes')
    (hmem : ∀ route, route ∈ routes ↔ route ∈ routes') : routes = routes' := List.Pairwise.eq_of_mem_iff h h' hmem

theorem Ascending.filter (h : Ascending routes) (keeps : Route → Bool) : Ascending (routes.filter keeps) :=
  List.Pairwise.filter keeps h

/-- The first names that differ decide. -/
theorem compare_eq_lt (hab : compare a b = .lt) (hr : directory ++ [a] <+: r) (hs : directory ++ [b] <+: s) :
    compare r s = .lt := by
  obtain ⟨rest, rfl⟩ := hr
  obtain ⟨rest', rfl⟩ := hs
  rw [List.append_assoc, List.append_assoc]
  induction directory with
  | nil =>
    rw [List.nil_append, List.nil_append, List.singleton_append, List.singleton_append, List.compare_cons_cons, hab]
    rfl
  | cons name directory ih =>
    have hname : compare name name = .eq := Std.ReflCmp.compare_self
    simp only [List.cons_append] at ih ⊢
    rw [List.compare_cons_cons, hname]
    exact ih

end Route

namespace Scan

variable {p : Plan} {w w' : Walk} {directory : Route} {name : Text} {names : List Text} {task : Task} {log : List Call}

/-- The entries of a task are in the order in which a walk takes them. -/
def Task.IsAscending : Task → Prop
  | .directory _ => True
  | .entries _ names => Text.Ascending names

theorem found_pass_eq_or (p : Plan) (directory : Route) (w : Walk) (name : Text) :
    (w.pass p directory name).found = w.found ∨ (w.pass p directory name).found = w.found ++ [directory ++ [name]] := by
  cases hlooks : p.looksAt directory w name with
  | false =>
    obtain ⟨unaskable, hpass⟩ := pass_of_not_looksAt hlooks
    exact .inl (by rw [hpass])
  | true =>
    rw [pass_of_looksAt hlooks]
    cases htakes : p.takes directory name with
    | false => exact .inl (by rw [Plan.filesAt, htakes]; exact List.append_nil _)
    | true => exact .inr (by rw [Plan.filesAt, htakes]; rfl)

/-- What is found at an entry comes before what is found at the entries after it. -/
theorem ascending_append {first found : List Route} (hnames : Text.Ascending (name :: names))
    (hfirst : Route.Ascending first) (hfound : Route.Ascending found)
    (hcovers : ∀ route ∈ first, (Task.directory (directory ++ [name])).Covers route)
    (hcovers' : ∀ route ∈ found, (Task.entries directory names).Covers route) : Route.Ascending (first ++ found) := by
  refine List.pairwise_append.mpr ⟨hfirst, hfound, fun route hroute route' hroute' => ?_⟩
  obtain ⟨name', hname', hstart'⟩ := hcovers' route' hroute'
  exact Route.compare_eq_lt (List.rel_of_pairwise_cons hnames hname') (hcovers route hroute) hstart'

/-- A walk finds files in the order of their routes. -/
theorem Ends.exists_ascending (h : Ends p task w log w') (htree : p.volume.top.IsTree) (htask : task.IsAscending) :
    ∃ found, w'.found = w.found ++ found ∧ Route.Ascending found ∧ ∀ route ∈ found, task.Covers route := by
  induction h with
  | unresolved => exact ⟨[], (List.append_nil _).symm, .nil, nofun⟩
  | reentered => exact ⟨[], (List.append_nil _).symm, .nil, nofun⟩
  | unread => exact ⟨[], (List.append_nil _).symm, .nil, nofun⟩
  | done => exact ⟨[], (List.append_nil _).symm, .nil, nofun⟩
  | listed _ _ hlist _ ih =>
    obtain ⟨_, entries, hlocate, rfl⟩ := Volume.exists_locate_of_list hlist
    have hnames := (htree.at? (Volume.at?_of_locate hlocate)).2.nodup
    obtain ⟨found, hfound, hascending, hcovers⟩ := ih (Text.ascending_sorted hnames)
    exact ⟨found, hfound, hascending, fun route hroute => Task.covers_of_entries (hcovers route hroute)⟩
  | @passed directory name names w w' log _ _ ih =>
    obtain ⟨found, hfound, hascending, hcovers⟩ := ih (List.Pairwise.of_cons htask)
    obtain hpass | hpass := found_pass_eq_or p directory w name
    · rw [hpass] at hfound
      exact ⟨found, hfound, hascending, fun route hroute => Task.covers_tail (hcovers route hroute)⟩
    · rw [hpass, List.append_assoc] at hfound
      have hown : ∀ route ∈ [directory ++ [name]], (Task.directory (directory ++ [name])).Covers route :=
        List.forall_mem_singleton.mpr List.prefix_rfl
      refine ⟨[directory ++ [name]] ++ found, hfound, ?_, List.forall_mem_append.mpr ⟨?_, ?_⟩⟩
      · exact ascending_append htask (List.pairwise_singleton _ _) hascending hown hcovers
      · exact fun route hroute => Task.covers_below (hown route hroute)
      · exact fun route hroute => Task.covers_tail (hcovers route hroute)
  | deeper _ _ _ ih ihrest =>
    obtain ⟨first, hfirst, hascending, hcovers⟩ := ih trivial
    obtain ⟨found, hfound, hascending', hcovers'⟩ := ihrest (List.Pairwise.of_cons htask)
    refine ⟨first ++ found, by rw [hfound, hfirst, List.append_assoc], ?_, List.forall_mem_append.mpr ⟨?_, ?_⟩⟩
    · exact ascending_append htask hascending hascending' hcovers hcovers'
    · exact fun route hroute => Task.covers_below (hcovers route hroute)
    · exact fun route hroute => Task.covers_tail (hcovers' route hroute)

theorem Ends.ascending_found (h : Ends p (.directory directory) {} log w) (htree : p.volume.top.IsTree) :
    Route.Ascending w.found := by
  obtain ⟨found, hfound, hascending, _⟩ := h.exists_ascending htree trivial
  rw [hfound]
  exact hascending

end Scan
end CCompletion
