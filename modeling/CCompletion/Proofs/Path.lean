import CCompletion.Proofs.Volume.Node
import Mathlib.Data.List.Induction

/-!
# Joined paths

A path is read as its names one after the other, and two dots take back the name before them. So a path that never
climbs above the place where it starts can be read below any route, and leads from there where it would lead by itself.
-/

namespace CCompletion.Path

variable {r gathered : Route} {name : Text} {ns : List Text} {rel : Text} {mayClimb : Bool}

/-! ## Names -/

theorem names_append (a b : Text) : names (a ++ unit '/' :: b) = names a ++ names b := by
  rw [names, List.splitOn_append_cons_self, List.filter_append]
  rfl

theorem names_text (h : ∀ name ∈ r, IsEntryName name) : names r.text = r := by
  cases r with
  | nil => decide
  | cons name r =>
    rw [names, Route.text_eq_intercalate,
      List.splitOn_intercalate (unit '/') (fun name hname => (h name hname).slash_notMem) (List.cons_ne_nil _ _),
      List.filter_eq_self]
    intro name hname
    simp [(h name hname).ne_nil, (h name hname).ne_dot]

theorem slash_notMem_of_mem_splitOn {p : Text} (h : name ∈ p.splitOn (unit '/')) : unit '/' ∉ name := by
  induction p generalizing name with
  | nil =>
    rw [List.splitOn_nil, List.mem_singleton] at h
    rw [h]
    exact List.not_mem_nil
  | cons u p ih =>
    rw [List.splitOn_cons_eq_if_modifyHead] at h
    split at h
    · obtain rfl | h := List.mem_cons.mp h
      · exact List.not_mem_nil
      · exact ih h
    · rename_i hu
      cases hparts : p.splitOn (unit '/') with
      | nil => exact absurd hparts (List.splitOn_ne_nil _ _)
      | cons first parts =>
        rw [hparts, List.modifyHead_cons] at h
        rw [hparts] at ih
        obtain rfl | h := List.mem_cons.mp h
        · have hu : unit '/' ≠ u := fun heq => hu (beq_iff_eq.mpr heq.symm)
          exact List.not_mem_cons_of_ne_of_not_mem hu (ih List.mem_cons_self)
        · exact ih (List.mem_cons_of_mem _ h)

/-- Two dots apart, the names of a path are names that entries can have. -/
theorem isEntryName_of_mem_names {p : Text} (h : name ∈ names p) (hdots : name ≠ "..") : IsEntryName name := by
  rw [names, List.mem_filter] at h
  have hname : name ≠ [] ∧ name ≠ "." := by simpa using h.2
  exact ⟨hname.1, hname.2, hdots, slash_notMem_of_mem_splitOn h.1⟩

/-! ## Routes -/

theorem push_of_ne_dots (h : name ≠ "..") (gathered : Route) : push mayClimb gathered name = name :: gathered :=
  if_pos h

theorem push_dots_cons (last : Text) (gathered : Route) :
    push mayClimb (last :: gathered) ".." = if last = ".." then (".." : Text) :: last :: gathered else gathered := rfl

theorem foldl_push_of_ne_dots (h : ∀ name ∈ ns, name ≠ "..") :
    ns.foldl (push mayClimb) gathered = ns.reverse ++ gathered := by
  induction ns generalizing gathered with
  | nil => rfl
  | cons name ns ih =>
    rw [List.forall_mem_cons] at h
    rw [List.foldl_cons, push_of_ne_dots h.1, ih h.2, List.reverse_cons, List.append_assoc]
    rfl

/-- Names that do not climb above where they start are gathered in the same way above all that was gathered before. -/
theorem foldl_push_append (h : (".." : Text) ∉ ns.foldl (push true) []) (gathered : Route) :
    ns.foldl (push true) gathered = ns.foldl (push true) [] ++ gathered := by
  induction ns using List.reverseRecOn with
  | nil => rfl
  | append_singleton ns name ih =>
    rw [List.foldl_append, List.foldl_cons, List.foldl_nil] at h ⊢
    rw [List.foldl_append, List.foldl_cons, List.foldl_nil]
    by_cases hname : name = ".."
    · subst hname
      cases hstart : ns.foldl (push true) [] with
      | nil =>
        -- there is nothing to take back, so the dots would be kept
        rw [hstart] at h
        exact absurd List.mem_cons_self h
      | cons last rest =>
        rw [hstart, push_dots_cons] at h
        by_cases hlast : last = ".."
        · rw [if_pos hlast] at h
          exact absurd List.mem_cons_self h
        · rw [if_neg hlast] at h
          rw [ih (hstart ▸ List.not_mem_cons_of_ne_of_not_mem (Ne.symm hlast) h), hstart, List.cons_append,
            push_dots_cons, push_dots_cons, if_neg hlast, if_neg hlast]
    · rw [push_of_ne_dots hname] at h ⊢
      rw [push_of_ne_dots hname, ih (List.not_mem_of_not_mem_cons h), List.cons_append]

theorem mem_of_mem_foldl_push (h : name ∈ ns.foldl (push mayClimb) gathered) : name ∈ ns ∨ name ∈ gathered := by
  induction ns generalizing gathered with
  | nil => exact .inr h
  | cons first ns ih =>
    obtain h | h := ih h
    · exact .inl (List.mem_cons_of_mem first h)
    · have hfirst : name = first → name ∈ first :: ns := fun heq => heq ▸ List.mem_cons_self
      unfold push at h
      split at h
      · exact (List.mem_cons.mp h).imp hfirst id
      · split at h
        · split at h
          · exact .inl (hfirst (List.mem_singleton.mp h))
          · cases h
        · split at h
          · exact (List.mem_cons.mp h).imp hfirst id
          · exact .inr (List.mem_cons_of_mem _ h)

theorem mem_names_of_mem_route {p : Text} (h : name ∈ route mayClimb p) : name ∈ names p :=
  (mem_of_mem_foldl_push (List.mem_reverse.mp h)).resolve_right List.not_mem_nil

/-- A route that does not climb holds names of entries. -/
theorem isEntryName_of_mem_route {p : Text} (hdots : (".." : Text) ∉ route mayClimb p) (h : name ∈ route mayClimb p) :
    IsEntryName name := isEntryName_of_mem_names (mem_names_of_mem_route h) fun heq => hdots (heq ▸ h)

/-- A path that does not climb is read below a route as by itself. -/
theorem route_append (hr : ∀ name ∈ r, IsEntryName name) (hrel : (".." : Text) ∉ route true rel) :
    route true (r.text ++ unit '/' :: rel) = r ++ route true rel := by
  rw [route, List.mem_reverse] at hrel
  have hstays : ∀ name ∈ r, name ≠ ".." := fun name hname => (hr name hname).ne_dots
  rw [route, names_append, names_text hr, List.foldl_append, foldl_push_of_ne_dots hstays, List.append_nil,
    foldl_push_append hrel, List.reverse_append, List.reverse_reverse]
  rfl

/-! ## Joining -/

/-- The slash at the end of a path, if there is one. -/
def closing (p : Text) : Text := if p.getLast? = some (unit '/') then "/" else ""

theorem text_ne_nil (hr : r ≠ []) (hnames : ∀ name ∈ r, IsEntryName name) : r.text ≠ [] := by
  intro h
  have hread := names_text hnames
  rw [h] at hread
  exact hr hread.symm

theorem not_isAbsolute_text (hr : r ≠ []) (hnames : ∀ name ∈ r, IsEntryName name) (rest : Text) :
    isAbsolute (r.text ++ rest) = false := by
  obtain ⟨name, r, rfl⟩ := List.exists_cons_of_ne_nil hr
  have hname : IsEntryName name := hnames name List.mem_cons_self
  obtain ⟨u, name, rfl⟩ := List.exists_cons_of_ne_nil hname.ne_nil
  have hu : u ≠ unit '/' := fun heq => hname.slash_notMem (heq ▸ List.mem_cons_self)
  have htext : ∃ more, Route.text ((u :: name) :: r) = u :: more := by
    cases r with
    | nil => exact ⟨name, Route.text_singleton _⟩
    | cons other r => exact ⟨_, Route.text_cons _ (List.cons_ne_nil _ _)⟩
  obtain ⟨more, hmore⟩ := htext
  rw [hmore, isAbsolute]
  exact beq_eq_false_iff_ne.mpr fun h => hu (Option.some.inj h)

/-- Joined to a route, a path that does not climb goes on from its end. -/
theorem join_text (hr : r ≠ []) (hnames : ∀ name ∈ r, IsEntryName name) (hne : rel ≠ [])
    (hrel : (".." : Text) ∉ route true rel) : join r.text rel = (r ++ route true rel).text ++ closing rel := by
  have hall : ∀ name ∈ r ++ route true rel, IsEntryName name :=
    List.forall_mem_append.mpr ⟨hnames, fun _ => isEntryName_of_mem_route hrel⟩
  have hbody := text_ne_nil (List.append_ne_nil_of_left_ne_nil hr _) hall
  have hlast : (r.text ++ unit '/' :: rel).getLast? = rel.getLast? := by
    rw [List.getLast?_append_of_ne_nil _ (List.cons_ne_nil _ _)]
    obtain ⟨u, rel, rfl⟩ := List.exists_cons_of_ne_nil hne
    exact List.getLast?_cons_cons
  rw [join, if_neg (text_ne_nil hr hnames), if_neg hne, normalize]
  simp only [not_isAbsolute_text hr hnames, Bool.not_false, route_append hnames hrel, if_neg hbody, Bool.false_eq_true,
    if_false, hlast]
  rfl

end CCompletion.Path
