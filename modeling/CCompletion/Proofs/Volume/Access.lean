import CCompletion.Proofs.Volume.Node
import CCompletion.Volume.Access

/-!
# Where paths lead

A path is followed name by name, and a link puts its own names in front of those that are left. Where that leads and
through how many links depends on nothing else, so a path can be followed in two parts, and the first part can be
replaced by the route without links to the same directory.
-/

namespace CCompletion.Volume

variable {top node : Node} {n k : Nat} {here mid real : Route} {name : Text} {names rest : List Text} {place : Place}
  {entries : List (Text × Node)} {v : Volume}

/-! ## Moves -/

/-- What one name makes of the way. -/
inductive Move where
  | step (there : Route)
  | jump (start : Route) (names : List Text)

/-- What a name does in the directory at `here`. -/
def move (top : Node) (here : Route) (name : Text) : Except AccessError Move :=
  match top.at? here with
  | some (.directory entries) =>
    if name = [] ∨ name = "." then .ok (.step here)
    else if name = ".." then .ok (.step here.dropLast)
    else
      match (Node.directory entries).child? name with
      | none => .error .missing
      | some (.link target) => .ok (.jump (if Path.isAbsolute target then [] else here) (target.splitOn (unit '/')))
      | some _ => .ok (.step (here ++ [name]))
  | _ => .error .notADirectory

/-- Goes on after a move. -/
def afterMove (top : Node) (jump : Route → List Text → Except AccessError Place) (rest : List Text) :
    Except AccessError Move → Except AccessError Place
  | .ok (.step there) => descend top jump there rest
  | .ok (.jump start names) => jump start (names ++ rest)
  | .error e => .error e

theorem descend_nil (jump : Route → List Text → Except AccessError Place) (h : top.at? here = some node) :
    descend top jump here [] = .ok (here, node) := by
  rw [descend, h]

theorem descend_cons (jump : Route → List Text → Except AccessError Place) :
    descend top jump here (name :: rest) = afterMove top jump rest (move top here name) := by
  rw [descend, move]
  cases top.at? here with
  | none => rfl
  | some node =>
    cases node with
    | file => rfl
    | link => rfl
    | directory entries =>
      by_cases hstay : name = [] ∨ name = "."
      · simp only [if_pos hstay, afterMove]
      by_cases hup : name = ".."
      · simp only [if_neg hstay, if_pos hup, afterMove]
      simp only [if_neg hstay, if_neg hup]
      cases (Node.directory entries).child? name with
      | none => rfl
      | some child => cases child <;> rfl

/-- A name moves on from a directory only. -/
theorem exists_directory_of_move {m : Move} (h : move top here name = .ok m) :
    ∃ entries, top.at? here = some (.directory entries) := by
  rw [move] at h
  split at h
  · rename_i entries hat
    exact ⟨entries, hat⟩
  · cases h

theorem move_of_isEntryName (hat : top.at? here = some (.directory entries)) (hname : IsEntryName name)
    (hchild : (Node.directory entries).child? name = some node) (hlink : ∀ target, node ≠ .link target) :
    move top here name = .ok (.step (here ++ [name])) := by
  rw [move, hat]
  simp only [hname.ne_nil, hname.ne_dot, hname.ne_dots, or_self, if_false, hchild]

/-! ## Ways -/

/-- The names lead from the directory at a route to a place, through so many links. -/
inductive Leads (top : Node) : Nat → Route → List Text → Place → Prop
  | here {here : Route} {node : Node} (hat : top.at? here = some node) : Leads top 0 here [] (here, node)
  | step {k : Nat} {here there : Route} {name : Text} {rest : List Text} {place : Place}
      (hmove : move top here name = .ok (.step there)) (hrest : Leads top k there rest place) :
      Leads top k here (name :: rest) place
  | jump {k : Nat} {here start : Route} {name : Text} {names rest : List Text} {place : Place}
      (hmove : move top here name = .ok (.jump start names)) (hrest : Leads top k start (names ++ rest) place) :
      Leads top (k + 1) here (name :: rest) place

namespace Leads

theorem at? (h : Leads top k here names place) : top.at? place.1 = some place.2 := by
  induction h with
  | here hat => exact hat
  | step _ _ ih => exact ih
  | jump _ _ ih => exact ih

theorem append {i j : Nat} {mid : Place} (h : Leads top i here names mid) (hrest : Leads top j mid.1 rest place) :
    Leads top (j + i) here (names ++ rest) place := by
  induction h with
  | here => exact hrest
  | step hmove _ ih => exact .step hmove (ih hrest)
  | jump hmove _ ih =>
    have hjump := ih hrest
    rw [List.append_assoc] at hjump
    exact .jump hmove hjump

/-- The links on the way are those before some point and those after it. -/
theorem exists_of_append (h : Leads top k here (names ++ rest) place) :
    ∃ i j mid, j + i = k ∧ Leads top i here names mid ∧ Leads top j mid.1 rest place := by
  generalize hall : names ++ rest = all at h
  -- a link of the first part puts its names in front of those left of that part
  induction h generalizing names with
  | @here here node hat =>
    obtain ⟨rfl, rfl⟩ := List.append_eq_nil_iff.mp hall
    exact ⟨0, 0, _, rfl, .here hat, .here hat⟩
  | @step k here there name tail place hmove hrest ih =>
    cases names with
    | nil =>
      subst hall
      obtain ⟨entries, hat⟩ := exists_directory_of_move hmove
      exact ⟨0, k, _, rfl, .here hat, .step hmove hrest⟩
    | cons first names =>
      obtain ⟨rfl, rfl⟩ := List.cons.inj hall
      obtain ⟨i, j, mid, hsum, hfirst, hlast⟩ := ih rfl
      exact ⟨i, j, mid, hsum, .step hmove hfirst, hlast⟩
  | @jump k here start name target tail place hmove hrest ih =>
    cases names with
    | nil =>
      subst hall
      obtain ⟨entries, hat⟩ := exists_directory_of_move hmove
      exact ⟨0, k + 1, _, rfl, .here hat, .jump hmove hrest⟩
    | cons first names =>
      obtain ⟨rfl, rfl⟩ := List.cons.inj hall
      obtain ⟨i, j, mid, hsum, hfirst, hlast⟩ := ih (List.append_assoc ..)
      exact ⟨i + 1, j, mid, by omega, .jump hmove hfirst, hlast⟩

theorem unique {i j : Nat} {place' : Place} (h : Leads top i here names place) (h' : Leads top j here names place') :
    place = place' := by
  induction h generalizing j with
  | here hat =>
    cases h' with
    | here hat' => rw [Option.some.inj (hat.symm.trans hat')]
  | step hmove _ ih =>
    cases h' with
    | step hmove' hrest' =>
      obtain rfl := Move.step.inj (Except.ok.inj (hmove.symm.trans hmove'))
      exact ih hrest'
    | jump hmove' _ => cases hmove.symm.trans hmove'
  | jump hmove _ ih =>
    cases h' with
    | step hmove' _ => cases hmove.symm.trans hmove'
    | jump hmove' hrest' =>
      obtain ⟨rfl, rfl⟩ := Move.jump.inj (Except.ok.inj (hmove.symm.trans hmove'))
      exact ih hrest'

/-- The names of a route without links lead to its end. -/
theorem of_at? (hnames : ∀ name ∈ real, IsEntryName name) (hlink : ∀ target, node ≠ .link target)
    (h : top.at? (here ++ real) = some node) : Leads top 0 here real (here ++ real, node) := by
  induction real generalizing here with
  | nil =>
    rw [List.append_nil] at h ⊢
    exact .here h
  | cons name real ih =>
    rw [Node.at?_append, Option.bind_eq_some_iff] at h
    obtain ⟨start, hstart, h⟩ := h
    rw [Node.at?_cons, Option.bind_eq_some_iff] at h
    obtain ⟨child, hchild, h⟩ := h
    have hdirectory := Node.eq_directory_of_child? hchild
    rw [hdirectory] at hstart hchild
    -- below a link there is nothing, and at the end of the route there is none either
    have hlink : ∀ target, child ≠ .link target := by
      rintro target rfl
      cases real with
      | nil => exact hlink target (Option.some.inj h).symm
      | cons => cases h
    have hthere : top.at? (here ++ [name] ++ real) = some node := by
      rw [Node.at?_append, Node.at?_append_name hstart, hchild]
      exact h
    have hrest := ih (fun other hother => hnames other (List.mem_cons_of_mem name hother)) hthere
    rw [List.append_assoc] at hrest
    exact .step (move_of_isEntryName hstart (hnames name List.mem_cons_self) hchild hlink) hrest

/-- Where there are no links, names of entries lead straight down. -/
theorem eq_append (h : Leads top k here names place) (hnames : ∀ name ∈ names, IsEntryName name)
    (hlinks : ∀ below target, top.at? (here ++ below) ≠ some (.link target)) : place.1 = here ++ names := by
  induction h with
  | here => exact (List.append_nil _).symm
  | @step k here there name rest place hmove _ ih =>
    obtain ⟨hname, hrest⟩ := List.forall_mem_cons.mp hnames
    obtain rfl : there = here ++ [name] := by
      obtain ⟨entries, hat⟩ := exists_directory_of_move hmove
      rw [move, hat] at hmove
      simp only [hname.ne_nil, hname.ne_dot, hname.ne_dots, or_self, if_false] at hmove
      split at hmove
      · cases hmove
      · cases hmove
      · exact (Move.step.inj (Except.ok.inj hmove)).symm
    rw [ih hrest fun below target => by rw [List.append_assoc]; exact hlinks _ target, List.append_assoc]
    rfl
  | @jump k here start name target rest place hmove _ _ =>
    have hname : IsEntryName name := hnames name List.mem_cons_self
    obtain ⟨entries, hat⟩ := exists_directory_of_move hmove
    rw [move, hat] at hmove
    simp only [hname.ne_nil, hname.ne_dot, hname.ne_dots, or_self, if_false] at hmove
    split at hmove
    · cases hmove
    · rename_i target hchild
      refine absurd ?_ (hlinks [name] target)
      rw [Node.at?_append_name hat, hchild]
    · cases hmove

end Leads

/-! ## Following -/

theorem leads_of_descend {jump : Route → List Text → Except AccessError Place}
    (hjump : ∀ start names place, jump start names = .ok place → ∃ k < n, Leads top k start names place)
    (h : descend top jump here names = .ok place) : ∃ k ≤ n, Leads top k here names place := by
  induction names generalizing here with
  | nil =>
    rw [descend] at h
    split at h
    · rename_i node hat
      rw [← Except.ok.inj h]
      exact ⟨0, Nat.zero_le n, .here hat⟩
    · cases h
  | cons name rest ih =>
    rw [descend_cons] at h
    cases hmove : move top here name with
    | error e =>
      rw [hmove] at h
      cases h
    | ok m =>
      rw [hmove] at h
      cases m with
      | step there =>
        obtain ⟨k, hk, hrest⟩ := ih h
        exact ⟨k, hk, .step hmove hrest⟩
      | jump start target =>
        obtain ⟨k, hk, hrest⟩ := hjump _ _ _ h
        exact ⟨k + 1, hk, .jump hmove hrest⟩

theorem leads_of_follow (h : follow top n here names = .ok place) : ∃ k ≤ n, Leads top k here names place := by
  induction n generalizing here names place with
  | zero => exact leads_of_descend (fun _ _ _ hjump => by cases hjump) h
  | succ n ih =>
    refine leads_of_descend (fun start names place hjump => ?_) h
    obtain ⟨k, hk, hleads⟩ := ih hjump
    exact ⟨k, Nat.lt_succ_of_le hk, hleads⟩

theorem exists_follow_eq_descend (top : Node) (n : Nat) : ∃ jump, follow top n = descend top jump := by
  cases n with
  | zero => exact ⟨_, rfl⟩
  | succ n => exact ⟨_, rfl⟩

theorem Leads.follow_eq (h : Leads top k here names place) (hk : k ≤ n) : follow top n here names = .ok place := by
  induction h generalizing n with
  | here hat =>
    obtain ⟨jump, hjump⟩ := exists_follow_eq_descend top n
    rw [hjump, descend_nil jump hat]
  | step hmove _ ih =>
    obtain ⟨jump, hjump⟩ := exists_follow_eq_descend top n
    have hrest := ih hk
    rw [hjump] at hrest ⊢
    rw [descend_cons, hmove]
    exact hrest
  | jump hmove _ ih =>
    obtain ⟨m, rfl⟩ : ∃ m, n = m + 1 := ⟨n - 1, by omega⟩
    rw [follow, descend_cons, hmove]
    exact ih (Nat.le_of_succ_le_succ hk)

/-- A path is found if it leads somewhere through no more than so many links. -/
theorem locate_eq_ok_iff : v.locate names = .ok place ↔ ∃ k ≤ linkLimit, Leads v.top k [] names place := by
  constructor
  · exact leads_of_follow
  · rintro ⟨k, hk, h⟩
    exact h.follow_eq hk

theorem at?_of_locate (h : v.locate names = .ok place) : v.top.at? place.1 = some place.2 := by
  obtain ⟨k, _, hleads⟩ := locate_eq_ok_iff.mp h
  exact hleads.at?

/-- What is found below a path to a directory is found below the route without links to it. -/
theorem locate_real (htree : v.top.IsTree) (hdirectory : v.locate names = .ok (real, .directory entries))
    (h : v.locate (names ++ rest) = .ok place) : v.locate (real ++ rest) = .ok place := by
  obtain ⟨k, hk, hleads⟩ := locate_eq_ok_iff.mp h
  obtain ⟨i, j, mid, rfl, hfirst, hlast⟩ := hleads.exists_of_append
  obtain ⟨i', _, hreal⟩ := locate_eq_ok_iff.mp hdirectory
  obtain rfl := hfirst.unique hreal
  have hat := at?_of_locate hdirectory
  -- the route to the directory takes no link, so what is left of the path takes no more than before
  have hroute : Leads v.top 0 [] real (real, .directory entries) :=
    .of_at? (htree.at? hat).1 (fun _ => nofun) hat
  exact locate_eq_ok_iff.mpr ⟨j, by omega, hroute.append hlast⟩

/-! ## Calls -/

theorem bind_eq_ok {α β : Type} {x : Except AccessError α} {f : α → Except AccessError β} {b : β}
    (h : x >>= f = .ok b) : ∃ a, x = .ok a ∧ f a = .ok b := by
  cases x with
  | error e => cases h
  | ok a => exact ⟨a, rfl, h⟩

theorem exists_locate_of_realRoute (h : v.realRoute names = .ok real) : ∃ node, v.locate names = .ok (real, node) := by
  obtain ⟨_, _, h⟩ := bind_eq_ok h
  obtain ⟨⟨found, node⟩, hlocate, h⟩ := bind_eq_ok h
  obtain rfl : found = real := Except.ok.inj h
  exact ⟨node, hlocate⟩

theorem exists_locate_of_list {found : List Text} (h : v.list names = .ok found) :
    ∃ real entries, v.locate names = .ok (real, .directory entries) ∧ found = entries.map (·.1) := by
  obtain ⟨_, _, h⟩ := bind_eq_ok h
  obtain ⟨⟨real, node⟩, hlocate, h⟩ := bind_eq_ok h
  cases node with
  | file => cases h
  | link => cases h
  | directory entries => exact ⟨real, entries, hlocate, (Except.ok.inj h).symm⟩

/-- A directory that is read is the one that its path was resolved to. -/
theorem locate_of_list {found : List Text} (hreal : v.realRoute names = .ok real) (hlist : v.list names = .ok found) :
    ∃ entries, v.locate names = .ok (real, .directory entries) ∧ found = entries.map (·.1) := by
  obtain ⟨node, hnode⟩ := exists_locate_of_realRoute hreal
  obtain ⟨real', entries, hlocate, hfound⟩ := exists_locate_of_list hlist
  obtain ⟨rfl, rfl⟩ := Prod.mk.inj (Except.ok.inj (hnode.symm.trans hlocate))
  exact ⟨entries, hlocate, hfound⟩

theorem exists_locate_of_inspect {info : EntryInfo} (h : v.inspect names = .ok info) :
    ∃ real, (∃ entries, v.locate names = .ok (real, .directory entries) ∧ info = .directory) ∨
      ∃ bytes, v.locate names = .ok (real, .file bytes) ∧ info = .file bytes.length := by
  obtain ⟨_, _, h⟩ := bind_eq_ok h
  obtain ⟨⟨real, node⟩, hlocate, h⟩ := bind_eq_ok h
  cases node with
  | file bytes => exact ⟨real, .inr ⟨bytes, hlocate, (Except.ok.inj h).symm⟩⟩
  | link => cases h
  | directory entries => exact ⟨real, .inl ⟨entries, hlocate, (Except.ok.inj h).symm⟩⟩

/-- An entry that could be looked at and leads to a directory is one. -/
theorem inspect_eq_directory {info : EntryInfo} (h : v.inspect names = .ok info)
    (hlocate : v.locate names = .ok (real, .directory entries)) : v.inspect names = .ok .directory := by
  obtain ⟨_, ⟨_, _, rfl⟩ | ⟨_, hfile, _⟩⟩ := exists_locate_of_inspect h
  · exact h
  · cases hlocate.symm.trans hfile

end CCompletion.Volume
