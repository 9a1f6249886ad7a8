import CCompletion.Ignore.Files
import CCompletion.Proofs.Volume.Node

/-!
# Directories and their slashes

A directory can be asked about with the slash that marks it or without. Whatever a pattern matches without the slash it
matches with it, so the answers of rules differ only where a negated rule is for directories alone. Then a directory can
count as ignored though nothing in it does.
-/

namespace CCompletion.Ignore

variable {t path : Text} {u : CodeUnit} {next : Text → Bool} {c : UnitClass} {ending : Ending} {rules : List Rule}
  {route : Route} {name : Text}

/-! ## Patterns -/

/-- No slash stands at the end. -/
def IsUnmarked (t : Text) : Prop := t.getLast? ≠ some slash

theorem IsUnmarked.tail (h : IsUnmarked (u :: t)) : IsUnmarked t := by
  cases t with
  | nil => exact nofun
  | cons v rest =>
    unfold IsUnmarked at h
    rwa [List.getLast?_cons_cons] at h

/-- What holds at some place of an unmarked text holds there with the slash. -/
def AdmitsSlash (next : Text → Bool) : Prop := ∀ t, IsUnmarked t → next t = true → next (t ++ [slash]) = true

theorem admitsSlash_holds (ending : Ending) : AdmitsSlash ending.holds := by
  intro t ht h
  have hne : t ≠ [slash] := by
    rintro rfl
    exact ht rfl
  cases ending with
  | anything => rfl
  | entry =>
    obtain rfl : t = [] := by simpa [Ending.holds, hne] using h
    rfl
  | directory => exact absurd (by simpa [Ending.holds] using h) hne
  | inside =>
    cases t with
    | nil => cases h
    | cons u rest =>
      simp only [Ending.holds, List.cons_append, List.head?_cons, Bool.and_eq_true, decide_eq_true_eq] at h ⊢
      refine ⟨h.1, ?_⟩
      rw [← List.cons_append, List.length_append]
      omega

theorem AdmitsSlash.skipMany (h : AdmitsSlash next) (c : UnitClass) : AdmitsSlash (skipMany c next) := by
  intro t ht hskip
  induction t with
  | nil =>
    have hend : next [slash] = true := h [] ht hskip
    show (next [slash] || _) = true
    rw [hend, Bool.true_or]
  | cons u rest ih =>
    rw [Ignore.skipMany, Bool.or_eq_true, Bool.and_eq_true] at hskip
    rw [List.cons_append, Ignore.skipMany, Bool.or_eq_true, Bool.and_eq_true]
    obtain hnext | ⟨hu, hrest⟩ := hskip
    · exact .inl (h _ ht hnext)
    · exact .inr ⟨hu, ih ht.tail hrest⟩

theorem AdmitsSlash.skipDirectories (h : AdmitsSlash next) (progress : Progress) :
    AdmitsSlash (skipDirectories next progress) := by
  intro t ht hskip
  induction t generalizing progress with
  | nil =>
    have hend : next [] = true → next [slash] = true := h [] ht
    cases progress with
    | slash => cases hskip
    | before =>
      show (next [slash] || _) = true
      rw [hend hskip, Bool.true_or]
    | name =>
      show (next [slash] || _) = true
      rw [hend hskip, Bool.true_or]
  | cons u rest ih =>
    rw [List.cons_append]
    cases progress with
    | before =>
      rw [Ignore.skipDirectories, Bool.or_eq_true, Bool.and_eq_true] at hskip ⊢
      obtain hnext | ⟨hu, hrest⟩ := hskip
      · exact .inl (h _ ht hnext)
      · exact .inr ⟨hu, ih _ ht.tail hrest⟩
    | slash =>
      rw [Ignore.skipDirectories, Bool.and_eq_true] at hskip ⊢
      exact ⟨hskip.1, ih _ ht.tail hskip.2⟩
    | name =>
      rw [Ignore.skipDirectories, Bool.or_eq_true] at hskip ⊢
      obtain hnext | hrest := hskip
      · exact .inl (h _ ht hnext)
      · exact .inr (ih _ ht.tail hrest)

theorem admitsSlash_matchPieces (ending : Ending) (pieces : List Piece) : AdmitsSlash (matchPieces ending pieces) := by
  induction pieces with
  | nil => exact admitsSlash_holds ending
  | cons piece pieces ih =>
    cases piece with
    | many c => exact ih.skipMany c
    | directories => exact ih.skipDirectories .before
    | one c =>
      intro t ht h
      cases t with
      | nil => cases h
      | cons u rest =>
        rw [matchPieces, Bool.and_eq_true] at h
        rw [List.cons_append, matchPieces, Bool.and_eq_true]
        exact ⟨h.1, ih rest ht.tail h.2⟩

theorem AdmitsSlash.afterSomeSlash (h : AdmitsSlash next) : AdmitsSlash (afterSomeSlash next) := by
  intro t ht hafter
  induction t with
  | nil => cases hafter
  | cons u rest ih =>
    rw [Ignore.afterSomeSlash, Bool.or_eq_true, Bool.and_eq_true] at hafter
    rw [List.cons_append, Ignore.afterSomeSlash, Bool.or_eq_true, Bool.and_eq_true]
    obtain ⟨hu, hrest⟩ | hrest := hafter
    · exact .inl ⟨hu, h rest ht.tail hrest⟩
    · exact .inr (ih ht.tail hrest)

/-- A pattern that matches a path matches the directory there too. -/
theorem admitsSlash_matches (p : Pattern) : AdmitsSlash p.matches := by
  have hhere := admitsSlash_matchPieces p.ending p.pieces
  intro t ht h
  unfold Pattern.matches at h ⊢
  cases hstart : p.start with
  | top =>
    rw [hstart] at h
    exact hhere t ht h
  | anyLevel =>
    rw [hstart] at h
    simp only [Bool.or_eq_true] at h ⊢
    exact h.imp (hhere t ht) (hhere.afterSomeSlash t ht)

/-! ## Rules -/

/-- No negated rule is for directories alone. -/
def NegatesEvenly (rules : List Rule) : Prop :=
  ∀ rule ∈ rules, rule.negated = true →
    ∀ path, rule.pattern.matches (path ++ [slash]) = true → rule.pattern.matches path = true

/-- How a rule changes the answer of the rules before it. -/
def Rule.revise (path : Text) (ignored : Bool) (rule : Rule) : Bool :=
  if rule.pattern.matches path then !rule.negated else ignored

/-- Where no negated rule is for directories alone, what is ignored without its slash is ignored with it. -/
theorem verdict_append_slash (hrules : NegatesEvenly rules) (hpath : IsUnmarked path) (h : verdict rules path = true) :
    verdict rules (path ++ [slash]) = true := by
  -- along the rules, from any two answers so far of which the first implies the second
  have hfold : ∀ (ignored ignored' : Bool), (ignored = true → ignored' = true) →
      rules.foldl (Rule.revise path) ignored = true → rules.foldl (Rule.revise (path ++ [slash])) ignored' = true := by
    clear h
    induction rules with
    | nil => exact fun _ _ himp => himp
    | cons rule rules ih =>
      intro ignored ignored' himp
      rw [List.foldl_cons, List.foldl_cons]
      apply ih fun other hother => hrules other (List.mem_cons_of_mem rule hother)
      have hmatch := admitsSlash_matches rule.pattern path hpath
      have heven := hrules rule List.mem_cons_self
      unfold Rule.revise
      by_cases hmarked : rule.pattern.matches (path ++ [slash]) = true
      · rw [if_pos hmarked]
        cases hnegated : rule.negated with
        | false => exact fun _ => rfl
        | true =>
          rw [if_pos (heven hnegated path hmarked)]
          exact id
      · rw [if_neg hmarked, if_neg (mt hmatch hmarked)]
        exact himp
  exact hfold false false id h

/-! ## Routes -/

theorem isUnmarked_text (hne : route ≠ []) (hnames : ∀ name ∈ route, IsEntryName name) : IsUnmarked route.text := by
  have hlast {name : Text} (hname : IsEntryName name) (before : Text) : IsUnmarked (before ++ name) := by
    unfold IsUnmarked
    rw [List.getLast?_append_of_ne_nil before hname.ne_nil]
    exact fun h => hname.slash_notMem (List.mem_of_getLast? h)
  obtain ⟨directory, name, rfl⟩ := (List.eq_nil_or_concat' route).resolve_left hne
  have hname : IsEntryName name := hnames name (List.mem_append_right _ List.mem_cons_self)
  by_cases hdirectory : directory = []
  · subst hdirectory
    rw [List.nil_append, Route.text_singleton]
    exact hlast hname []
  · rw [Route.text_append hdirectory (List.cons_ne_nil _ _), Route.text_singleton, ← List.singleton_append,
      ← List.append_assoc]
    exact hlast hname _

/-- A route is ignored by itself, or as a directory that it lies in is. -/
theorem ignores_eq_true_iff : ignores rules route = true ↔
    (∃ i, i + 1 < route.length ∧ verdict rules (Route.text (route.take (i + 1)) ++ [slash]) = true) ∨
      verdict rules route.text = true := by
  have hrange (i : Nat) : i < route.length - 1 ↔ i + 1 < route.length := by omega
  simp only [ignores, Bool.or_eq_true, List.any_eq_true, List.mem_range, hrange]

/-- Nothing on the way to the end of the route is ignored, each directory being asked about without its slash. -/
def Keeps (rules : List Rule) (route : Route) : Prop := ∀ i < route.length, ignores rules (route.take (i + 1)) = false

instance (rules : List Rule) (route : Route) : Decidable (Keeps rules route) :=
  inferInstanceAs (Decidable (∀ i < route.length, ignores rules (route.take (i + 1)) = false))

theorem keeps_nil (rules : List Rule) : Keeps rules [] := nofun

theorem Keeps.of_isPrefix {directory : Route} (h : Keeps rules route) (hstart : directory <+: route) :
    Keeps rules directory := by
  obtain ⟨rest, rfl⟩ := hstart
  intro i hi
  have hkept := h i (by rw [List.length_append]; omega)
  rwa [List.take_append_of_le_length hi] at hkept

theorem Keeps.ignores_eq_false (h : Keeps rules route) (hne : route ≠ []) : ignores rules route = false := by
  have hlength : 0 < route.length := List.length_pos_of_ne_nil hne
  have hlast := h (route.length - 1) (by omega)
  rwa [Nat.sub_add_cancel hlength, List.take_length] at hlast

theorem keeps_concat_iff :
    Keeps rules (route ++ [name]) ↔ Keeps rules route ∧ ignores rules (route ++ [name]) = false := by
  constructor
  · exact fun h => ⟨h.of_isPrefix (List.prefix_append _ _), h.ignores_eq_false (by simp)⟩
  · rintro ⟨hroute, hlast⟩ i hi
    rw [List.length_append, List.length_singleton] at hi
    by_cases heq : i = route.length
    · rwa [heq, List.take_of_length_le (by simp)]
    · rw [List.take_append_of_le_length (by omega)]
      exact hroute i (by omega)

theorem ignores_take (h : ignores rules route = false) {i : Nat} (hi : i < route.length) :
    ignores rules (route.take (i + 1)) = verdict rules (Route.text (route.take (i + 1))) := by
  rw [Bool.eq_iff_iff, ignores_eq_true_iff]
  apply or_iff_right
  -- the directories on the way there are on the way to the end of the route as well
  rintro ⟨j, hj, hverdict⟩
  rw [List.length_take] at hj
  rw [List.take_take, Nat.min_eq_left (by omega)] at hverdict
  have hignored : ignores rules route = true := ignores_eq_true_iff.mpr (.inl ⟨j, by omega, hverdict⟩)
  rw [h] at hignored
  cases hignored

/-- A route that is not ignored is kept unless one of its directories is ignored without its slash. -/
theorem keeps_iff_of_not_ignores (h : ignores rules route = false) : Keeps rules route ↔
    ∀ i, i + 1 < route.length → verdict rules (Route.text (route.take (i + 1))) = false := by
  constructor
  · intro hkept i hi
    rw [← ignores_take h (by omega)]
    exact hkept i (by omega)
  · intro hverdict i hi
    by_cases hlast : i + 1 < route.length
    · rw [ignores_take h hi]
      exact hverdict i hlast
    · rw [List.take_of_length_le (by omega)]
      exact h

/-- Where no negated rule is for directories alone, only what is ignored is not kept. -/
theorem NegatesEvenly.keeps_iff (hrules : NegatesEvenly rules) (hne : route ≠ [])
    (hnames : ∀ name ∈ route, IsEntryName name) : Keeps rules route ↔ ignores rules route = false := by
  refine ⟨fun h => h.ignores_eq_false hne, fun h => (keeps_iff_of_not_ignores h).mpr fun i hi => ?_⟩
  have hpath : IsUnmarked (Route.text (route.take (i + 1))) := by
    apply isUnmarked_text
    · exact List.ne_nil_of_length_pos (by rw [List.length_take]; omega)
    · exact fun name hname => hnames name (List.mem_of_mem_take hname)
  by_contra hverdict
  have hmarked := verdict_append_slash hrules hpath (Bool.of_not_eq_false hverdict)
  have hignored : ignores rules route = true := ignores_eq_true_iff.mpr (.inl ⟨i, hi, hmarked⟩)
  rw [h] at hignored
  cases hignored

end CCompletion.Ignore
