import CCompletion.Proofs.Ignore.Loaded

/-!
# Paths outside a directory

A rule of a nested ignore file begins with the path of its directory, so it matches no path that does not. Letters match
in either case, so only the paths below a directory of the same letters are within its reach.
-/

namespace CCompletion.Ignore

variable {d r s : Route} {line path y rest closing : Text} {rules rules' : List Rule}

/-! ## Lines -/

/-- No start of the path up to a slash is the path of the directory, the case of letters apart. -/
def IsOutside (d : Route) (path : Text) : Prop :=
  ∀ y rest, path = y ++ slash :: rest → y.map capital ≠ d.text.map capital

/-- The line holds no rule, or a valid one whose pattern leads to something below the directory of its file. -/
def StaysBelow (d : Route) (line : Text) : Prop :=
  line.trim = [] ∨ line.head? = some (unit '#') ∨ (LeadsDown line ∧ (Rule.ofLine? (scopedLine d line)).isSome = true)

theorem all_isBlank_of_trim (h : line.trim = []) : line.all isBlank = true := by
  have hstart : line.trimStart = [] := by
    cases hstart : line.trimStart with
    | nil => rfl
    | cons u rest =>
      have hu : isBlank u = false := by
        have hhead := List.head?_dropWhile_not isBlank line
        rw [← Text.trimStart, hstart] at hhead
        simpa using hhead
      rw [Text.trim, hstart, trimEnd_cons ⟨u, List.mem_cons_self, hu⟩] at h
      cases h
  rw [List.all_eq_true]
  exact List.dropWhile_eq_nil_iff.mp hstart

theorem head?_trim_of_comment (h : line.head? = some (unit '#')) : line.trim.head? = some (unit '#') := by
  obtain ⟨rest, rfl⟩ := List.head?_eq_some_iff.mp h
  have hmark : isBlank (unit '#') = false := by decide
  rw [Text.trim, Text.trimStart, List.dropWhile_cons_of_neg (by rw [hmark]; decide),
    trimEnd_cons ⟨_, List.mem_cons_self, hmark⟩]
  rfl

/-- The rule of such a line matches no path outside the directory. -/
theorem isForeign_scopedLine (hd : IsScope d) (h : StaysBelow d line) (hpath : IsOutside d path) :
    IsForeign path (scopedLine d line) := by
  obtain hblank | hcomment | ⟨hdown, hvalid⟩ := h
  · refine ⟨none, ?_, nofun⟩
    rw [scopedLine, if_pos (.inl hblank), Rule.ofLine?, holdsRule, all_isBlank_of_trim hblank]
    rfl
  · refine ⟨none, ?_, nofun⟩
    rw [scopedLine, if_pos (.inr (head?_trim_of_comment hcomment)), Rule.ofLine?, holdsRule, hcomment]
    simp
  · have hstart := hd.isPlainStart (isNegated line) (slash :: normalPart line)
    have hrule := ofLine?_eq hstart (isInked_of_slash_mem (by simp))
    rw [← hdown.scopedLine_eq hd] at hrule
    rw [hrule] at hvalid
    by_cases hlast : trailingBackslashes (d.text ++ slash :: normalPart line) = 1
    · exact ⟨none, by rw [hrule, if_pos hlast], nofun⟩
    · rw [if_neg hlast, Option.isSome_map] at hvalid
      obtain ⟨p, hp⟩ := Option.isSome_iff_exists.mp hvalid
      refine ⟨some ⟨isNegated line, p⟩, by rw [hrule, if_neg hlast, hp]; rfl, ?_⟩
      rintro _ ⟨⟩
      refine Bool.eq_false_iff.mpr fun hmatches => ?_
      obtain ⟨y, rest, hy, hletters⟩ := hd.isLiteralPath.exists_of_matches hdown.normalPart_ne_nil hp hmatches
      exact hpath y rest hy hletters

/-! ## Routes -/

/-- The text of a route, cut at a slash, is the text of its start. -/
theorem exists_take_of_text_eq (hne : s ≠ []) (hnames : ∀ name ∈ s, IsEntryName name) (hclosing : IsClosing closing)
    (h : s.text ++ closing = y ++ slash :: rest) :
    ∃ k ≤ s.length, (closing = [] → k < s.length) ∧ y = Route.text (s.take k) := by
  -- cut at its slashes the text gives the names of the route, and no more than an empty one behind them
  have hslashes : s.text.splitOn slash = s := by
    rw [Route.text_eq_intercalate]
    exact List.splitOn_intercalate _ (fun name hname => (hnames name hname).slash_notMem) hne
  have hsplit : ∃ tail, (s.text ++ closing).splitOn slash = s ++ tail ∧ tail.length ≤ 1 ∧
      (closing = [] → tail = []) := by
    obtain rfl | rfl := hclosing
    · exact ⟨[], by rw [List.append_nil, List.append_nil, hslashes], Nat.zero_le _, fun _ => rfl⟩
    · refine ⟨[[]], ?_, Nat.le_refl _, nofun⟩
      rw [List.splitOn_append_cons_self, hslashes]
      rfl
  obtain ⟨tail, htail, hlength, hnil⟩ := hsplit
  rw [h, List.splitOn_append_cons_self] at htail
  have hrest : 0 < (rest.splitOn slash).length := List.length_pos_of_ne_nil (List.splitOn_ne_nil _ _)
  have hsum := congrArg List.length htail
  rw [List.length_append, List.length_append] at hsum
  refine ⟨(y.splitOn slash).length, by omega, fun hclosing => ?_, ?_⟩
  · rw [hnil hclosing, List.length_nil] at hsum
    omega
  · have hstart := congrArg (List.take (y.splitOn slash).length) htail
    rw [List.take_left, List.take_append_of_le_length (by omega)] at hstart
    rw [← hstart, Route.text_eq_intercalate]
    exact (List.intercalate_splitOn slash).symm

/-- The route does not lead through the directory, nor through one whose path differs from it in the case of letters
alone. -/
structure PassesBy (d r : Route) : Prop where
  outside : ¬d <+: r
  letters : ∀ k < r.length, (Route.text (r.take k)).map capital = d.text.map capital → r.take k = d

section PassesBy

variable (h : PassesBy d r) (hr : ∀ name ∈ r, IsEntryName name)

include h hr

theorem PassesBy.isOutside {n : Nat} (hn : n ≤ r.length) (hne : r.take n ≠ []) (hclosing : IsClosing closing)
    (hend : n = r.length → closing = []) : IsOutside d (Route.text (r.take n) ++ closing) := by
  intro y rest hy hletters
  have hlength : (r.take n).length = n := by rw [List.length_take]; omega
  have hnames : ∀ name ∈ r.take n, IsEntryName name := fun name hname => hr name (List.mem_of_mem_take hname)
  obtain ⟨k, hk, hlast, rfl⟩ := exists_take_of_text_eq hne hnames hclosing hy
  rw [hlength] at hk hlast
  have hbefore : k < r.length := by
    by_cases hall : n = r.length
    · exact hall ▸ hlast (hend hall)
    · omega
  rw [List.take_take, Nat.min_eq_left hk] at hletters
  exact h.outside (h.letters k hbefore hletters ▸ List.take_prefix k r)

/-- Rules that differ in what they say of paths below a directory only judge the route alike. -/
theorem PassesBy.ignores_eq (hne : r ≠ [])
    (hverdict : ∀ path, IsOutside d path → verdict rules path = verdict rules' path) :
    ignores rules r = ignores rules' r := by
  have hlength : 0 < r.length := List.length_pos_of_ne_nil hne
  have hwhole : verdict rules r.text = verdict rules' r.text := by
    have houtside := h.isOutside hr (Nat.le_refl _) (by rwa [List.take_length]) (.inl rfl) fun _ => rfl
    rw [List.take_length, List.append_nil] at houtside
    exact hverdict _ houtside
  have hdirectories {i : Nat} (hi : i < r.length - 1) : verdict rules (Route.text (r.take (i + 1)) ++ [slash]) =
      verdict rules' (Route.text (r.take (i + 1)) ++ [slash]) := by
    have htake : r.take (i + 1) ≠ [] := List.ne_nil_of_length_pos (by rw [List.length_take]; omega)
    exact hverdict _ (h.isOutside hr (by omega) htake (.inr rfl) fun hall => by omega)
  rw [Bool.eq_iff_iff, ignores_eq_true_iff, ignores_eq_true_iff, hwhole]
  refine or_congr_left (exists_congr fun i => and_congr_right fun hi => ?_)
  rw [hdirectories (by omega)]

end PassesBy

end CCompletion.Ignore
