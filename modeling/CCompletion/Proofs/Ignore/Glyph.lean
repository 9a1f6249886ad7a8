import CCompletion.Proofs.Ignore.Directory
import Mathlib.Data.List.TakeWhile

/-!
# Glyphs behind literal units

A pattern is read from left to right, and a unit that is not special is read by itself. So the text of a pattern can be
taken apart at its slashes: what stands behind one is read in the same way whatever literal units stand before it.
-/

namespace CCompletion.Ignore

variable {t x s : Text} {u : CodeUnit} {g : Glyph} {gs : List Glyph}

/-! ## Reading glyphs -/

/-- The unit stands for itself wherever it stands in a pattern. -/
def isLiteral (u : CodeUnit) : Bool := u != unit '*' && u != unit '?' && u != unit '[' && u != backslash

theorem isLiteral_iff : isLiteral u = true ↔ u ≠ unit '*' ∧ u ≠ unit '?' ∧ u ≠ unit '[' ∧ u ≠ backslash := by
  simp only [isLiteral, Bool.and_eq_true, bne_iff_ne, and_assoc]

/-- The glyphs of the pattern in a text. -/
def patternGlyphs? (t : Text) : Option (List Glyph) := (glyphs? (unquoteBlanks 0 (trimUnquoted t))).map unquoteLastStar

/-- The text is not blank. -/
def IsInked (t : Text) : Prop := ∃ u ∈ t, isBlank u = false

theorem isInked_of_slash_mem (h : slash ∈ t) : IsInked t := ⟨slash, h, by decide⟩

theorem isInked_slash_cons (t : Text) : IsInked (slash :: t) := isInked_of_slash_mem List.mem_cons_self

theorem trimEnd_eq_nil_iff : Text.trimEnd t = [] ↔ ¬IsInked t := by
  rw [Text.trimEnd, List.reverse_eq_nil_iff, List.dropWhile_eq_nil_iff]
  simp only [IsInked, List.mem_reverse, not_exists, not_and, Bool.not_eq_false]

theorem trimEnd_cons (h : IsInked (u :: t)) : Text.trimEnd (u :: t) = u :: t.trimEnd := by
  rw [Text.trimEnd, Text.trimEnd, List.reverse_cons, List.dropWhile_append]
  by_cases hblank : t.reverse.dropWhile isBlank = []
  · have hu : isBlank u = false := by
      obtain ⟨w, hw, hink⟩ := h
      obtain rfl | hw := List.mem_cons.mp hw
      · exact hink
      · rw [List.dropWhile_eq_nil_iff] at hblank
        rw [hblank w (List.mem_reverse.mpr hw)] at hink
        cases hink
    rw [hblank, List.isEmpty_nil, if_pos rfl, List.dropWhile_cons_of_neg (by rw [hu]; exact nofun)]
    rfl
  · rw [List.isEmpty_eq_false_iff.mpr hblank, if_neg nofun, List.reverse_append]
    rfl

theorem trailingBackslashes_cons (hu : u ≠ backslash) (t : Text) :
    trailingBackslashes (u :: t) = trailingBackslashes t := by
  rw [trailingBackslashes, trailingBackslashes, List.reverse_cons, List.takeWhile_append]
  split
  · rename_i hall
    rw [List.takeWhile_cons_of_neg (by simpa using hu), List.append_nil, hall]
  · rfl

theorem trimUnquoted_cons (hu : u ≠ backslash) (h : IsInked (u :: t)) :
    trimUnquoted (u :: t) = u :: trimUnquoted t := by
  have hlength : (u :: t.trimEnd).length < (u :: t).length ↔ t.trimEnd.length < t.length := Nat.succ_lt_succ_iff
  simp only [trimUnquoted, trimEnd_cons h, trailingBackslashes_cons hu, hlength]
  split
  · rename_i hodd
    have hne : t.trimEnd ≠ [] := by
      intro hnil
      rw [hnil] at hodd
      exact absurd hodd.2 (by decide)
    rw [List.dropLast_cons_of_ne_nil hne]
    rfl
  · rfl

theorem unquoteBlanks_cons (hu : u ≠ backslash) (t : Text) : unquoteBlanks 0 (u :: t) = u :: unquoteBlanks 0 t := by
  rw [unquoteBlanks, if_neg hu, if_neg (fun h => absurd h.1 (Nat.lt_irrefl 0))]
  rfl

theorem glyphs?_cons (hu : u ≠ backslash) (t : Text) : glyphs? (u :: t) = (glyphs? t).map (.ofUnit u :: ·) := by
  cases t with
  | nil => exact if_neg hu
  | cons v t => exact if_neg hu

theorem unquoteLastStar_cons (u : CodeUnit) (gs : List Glyph) :
    unquoteLastStar (.ofUnit u :: gs) = .ofUnit u :: unquoteLastStar gs := by
  have hquoted : ∀ v, Glyph.ofUnit u ≠ .quoted v := by
    intro v h
    unfold Glyph.ofUnit at h
    split_ifs at h
  rw [unquoteLastStar]
  exact fun v h => absurd h (hquoted v)

/-- A unit that is not a backslash is read by itself. -/
theorem patternGlyphs?_cons (hu : u ≠ backslash) (h : IsInked (u :: t)) :
    patternGlyphs? (u :: t) = (patternGlyphs? t).map (.ofUnit u :: ·) := by
  rw [patternGlyphs?, patternGlyphs?, trimUnquoted_cons hu h, unquoteBlanks_cons hu, glyphs?_cons hu, Option.map_map,
    Option.map_map]
  congr 1
  funext gs
  exact unquoteLastStar_cons u gs

theorem patternGlyphs?_slash (s : Text) : patternGlyphs? (slash :: s) = (patternGlyphs? s).map (.slash :: ·) :=
  patternGlyphs?_cons (by decide) (isInked_slash_cons s)

theorem patternGlyphs?_append (hx : ∀ u ∈ x, isLiteral u = true) (s : Text) :
    patternGlyphs? (x ++ slash :: s) = (patternGlyphs? s).map (x.map .ofUnit ++ .slash :: ·) := by
  induction x with
  | nil => exact patternGlyphs?_slash s
  | cons u x ih =>
    obtain ⟨hu, hx⟩ := List.forall_mem_cons.mp hx
    rw [List.cons_append, patternGlyphs?_cons (isLiteral_iff.mp hu).2.2.2 (isInked_of_slash_mem (by simp)), ih hx,
      Option.map_map]
    rfl

/-! ## Patterns -/

/-- The pattern that glyphs stand for, `tied` saying whether a slash in the text ties them to the top. -/
def Pattern.ofGlyphs? (tied : Bool) (gs : List Glyph) : Option Pattern :=
  match gs with
  | [] => return ⟨.anyLevel, [], .anything⟩
  | .slash :: .star :: .star :: .slash :: rest | .star :: .star :: .slash :: rest => do
    let (ps, e) ← compile? none rest
    return ⟨.anyLevel, ps, e⟩
  | [.slash, .star] => return ⟨.top, [.one .notSlash, .many .notSlash], .entry⟩
  | .slash :: rest => do
    let (ps, e) ← compile? none rest
    return ⟨.top, ps, e⟩
  | _ => do
    let (ps, e) ← compile? none gs
    return ⟨if tied then .top else .anyLevel, ps, e⟩

theorem ofText?_eq (t : Text) :
    Pattern.ofText? t = (patternGlyphs? (dropMark t)).bind (Pattern.ofGlyphs? (hasInnerSlash t)) := by
  rw [Pattern.ofText?, patternGlyphs?]
  cases glyphs? (unquoteBlanks 0 (trimUnquoted (dropMark t))) with
  | none => rfl
  | some gs => rfl

/-! ## Compiling -/

/-- The piece that a unit standing for itself is compiled to. -/
def literalPiece (u : CodeUnit) : Piece := .one (.this u)

theorem ofUnit_ne_slash (hu : u ≠ slash) : Glyph.ofUnit u ≠ .slash := by
  unfold Glyph.ofUnit
  split_ifs with hslash
  · exact absurd hslash hu
  all_goals exact nofun

section Units

variable (hu : isLiteral u = true)

include hu

theorem ofUnit_of_isLiteral : Glyph.ofUnit u = .slash ∨ Glyph.ofUnit u = .closing ∨ Glyph.ofUnit u = .plain u := by
  obtain ⟨hstar, hquery, hopening, -⟩ := isLiteral_iff.mp hu
  rw [Glyph.ofUnit, if_neg hstar, if_neg hquery, if_neg hopening]
  split_ifs
  · exact .inl rfl
  · exact .inr (.inl rfl)
  · exact .inr (.inr rfl)

theorem ofUnit_ne_star : Glyph.ofUnit u ≠ .star := by
  obtain h | h | h := ofUnit_of_isLiteral hu <;> rw [h] <;> exact nofun

theorem ofUnit_not_opening : Glyph.ofUnit u ∉ [.opening, .strictOpening] := by
  obtain h | h | h := ofUnit_of_isLiteral hu <;> rw [h] <;> simp

theorem spoils_ofUnit (gs : List Glyph) : (Glyph.ofUnit u).spoils gs = false := by
  obtain h | h | h := ofUnit_of_isLiteral hu <;> rw [h] <;> rfl

theorem pieces?_ofUnit : (Glyph.ofUnit u).pieces? = some [literalPiece u] := by
  obtain ⟨hstar, hquery, hopening, -⟩ := isLiteral_iff.mp hu
  rw [Glyph.ofUnit, if_neg hstar, if_neg hquery, if_neg hopening]
  split_ifs with hslash hclosing
  · rw [hslash]
    rfl
  · rw [hclosing]
    rfl
  · rfl

end Units

/-- Outside brackets a glyph is compiled by itself unless stars are in play. -/
theorem compile?_cons {g' : Glyph} {first : List Piece} (hg : g.pieces? = some first) (hstar : g ≠ .star)
    (hopening : g ∉ [.opening, .strictOpening]) (hg' : g' ≠ .star) (hgs : g.spoils (g' :: gs) = false) :
    compile? none (g :: g' :: gs) = (compile? none (g' :: gs)).map fun (ps, e) => (first ++ ps, e) := by
  rw [List.mem_cons, List.mem_singleton, not_or] at hopening
  rw [compile?, hg, hgs]
  · cases compile? none (g' :: gs) <;> rfl
  · exact fun _ => nofun
  · exact fun _ h => hg' (List.cons.inj h).1
  · exact fun _ _ h => hg' (List.cons.inj h).1
  · exact hstar
  · exact hopening.1
  · exact hopening.2
  · exact nofun
  · exact fun h => hg' (List.cons.inj h).1

/-- Units that stand for themselves are compiled by themselves. -/
theorem compile?_append (hx : ∀ u ∈ x, isLiteral u = true) (gs : List Glyph) :
    compile? none (x.map .ofUnit ++ .slash :: gs) =
      (compile? none (.slash :: gs)).map fun (ps, e) => (x.map literalPiece ++ ps, e) := by
  induction x with
  | nil => exact Option.map_id'.symm
  | cons u x ih =>
    obtain ⟨hu, hx⟩ := List.forall_mem_cons.mp hx
    have hrest : ∃ g rest, x.map Glyph.ofUnit ++ .slash :: gs = g :: rest ∧ g ≠ .star := by
      cases x with
      | nil => exact ⟨_, _, rfl, nofun⟩
      | cons v x => exact ⟨_, _, rfl, ofUnit_ne_star (hx v List.mem_cons_self)⟩
    obtain ⟨g, rest, hglyphs, hg⟩ := hrest
    rw [List.map_cons, List.cons_append, hglyphs,
      compile?_cons (pieces?_ofUnit hu) (ofUnit_ne_star hu) (ofUnit_not_opening hu) hg (spoils_ofUnit hu _), ← hglyphs,
      ih hx, Option.map_map]
    rfl

/-- What glyphs behind a slash begin with, as far as it decides how that slash is read. -/
inductive Opening : List Glyph → Prop
  | none : Opening []
  | star : Opening [.star]
  | stars : Opening [.star, .star]
  | directories (rest : List Glyph) : Opening (.star :: .star :: .slash :: rest)
  | plain {gs : List Glyph}
      (hslash : compile? .none (.slash :: gs) =
        (compile? .none gs).map fun (ps, e) => (.one (.this slash) :: ps, e))
      (hglyphs : ∀ tied, Pattern.ofGlyphs? tied (.slash :: gs) =
        (compile? .none gs).map fun (ps, e) => ⟨.top, ps, e⟩) : Opening gs

theorem opening (gs : List Glyph) : Opening gs := by
  by_cases hnone : gs = []
  · exact hnone ▸ .none
  by_cases hstar : gs = [.star]
  · exact hstar ▸ .star
  by_cases hstars : gs = [.star, .star]
  · exact hstars ▸ .stars
  by_cases hdirectories : ∃ rest, gs = .star :: .star :: .slash :: rest
  · obtain ⟨rest, rfl⟩ := hdirectories
    exact .directories rest
  refine .plain ?_ fun tied => ?_
  · rw [compile?]
    · cases compile? Option.none gs <;> rfl
    · exact fun _ => hnone
    · exact fun _ => hstars
    · exact fun rest _ h => hdirectories ⟨rest, h⟩
    · exact nofun
    · exact nofun
    · exact nofun
    · exact nofun
    · exact hstar
  · rw [Pattern.ofGlyphs?]
    · cases compile? Option.none gs <;> rfl
    · exact fun rest h => hdirectories ⟨rest, h⟩
    · exact hstar

end CCompletion.Ignore
