import CCompletion.Proofs.Ignore.Glyph
import CCompletion.Proofs.Path

/-!
# Patterns behind a literal path

Put behind a path that holds no special unit, a pattern keeps its meaning: at the paths below that path it matches what
it matches from the top when it is tied there, and it matches nothing that does not begin with that path, the case of
letters apart. Only the double stars that a pattern begins with can be read in another way there.
-/

namespace CCompletion.Ignore

variable {t x s : Text} {u : CodeUnit} {gs : List Glyph} {ps : List Piece} {e : Ending} {next here : Text → Bool}
  {name closing : Text} {r : Route}

/-! ## Matching literal units -/

theorem uppercaseSpans_bounds : ∀ s ∈ LetterCase.uppercaseSpans, s.first < 65536 →
    128 ≤ s.first + s.offset ∧ s.last + s.offset < 65536 := by decide +kernel

/-- No other unit is taken for a slash. -/
theorem capital_eq_slash_iff : capital u = capital slash ↔ u = slash := by
  refine ⟨fun h => ?_, congrArg capital⟩
  have hslash : slash = 47 := by decide
  have hcapital : capital slash = 47 := by decide
  rw [hcapital, capital] at h
  rw [hslash]
  split_ifs at h with hascii hletter
  · have hlow : 97 ≤ u.toNat := UInt16.le_iff_toNat_le.mp hletter.1
    have hoffset : (32 : CodeUnit) ≤ u := UInt16.le_iff_toNat_le.mpr (Nat.le_trans (by decide) hlow)
    have hshifted : u.toNat - 32 = 47 := (UInt16.toNat_sub_of_le _ _ hoffset).symm.trans (congrArg UInt16.toNat h)
    omega
  · exact h
  · exfalso
    cases hspan : LetterCase.uppercaseSpans.findSome? fun s => s.shifted? u.toNat with
    | none =>
      rw [hspan, Option.map_none, Option.getD_none] at h
      exact hascii (h ▸ by decide)
    | some n =>
      rw [hspan, Option.map_some, Option.getD_some] at h
      have hmod : n % 65536 = 47 := UInt16.toNat_ofNat'.symm.trans (congrArg UInt16.toNat h)
      -- the capital of a letter outside ASCII is none of ASCII
      obtain ⟨s, hs, hshifted⟩ := List.exists_of_findSome?_eq_some hspan
      have hbounds := uppercaseSpans_bounds s hs
      have hu := u.toNat_lt
      rw [LetterCase.Span.shifted?] at hshifted
      split_ifs at hshifted with hrange
      have hn := Option.some.inj hshifted
      omega

theorem matchPieces_map_append (x : Text) : matchPieces e (x.map literalPiece ++ ps) (x ++ t) = matchPieces e ps t := by
  induction x with
  | nil => rfl
  | cons u x ih =>
    rw [List.map_cons, List.cons_append, List.cons_append, literalPiece, matchPieces, ih, UnitClass.holds,
      beq_self_eq_true, Bool.true_and]

/-- What pieces of literal units match begins with those units, the case of letters apart. -/
theorem exists_of_matchPieces_map (h : matchPieces e (x.map literalPiece ++ ps) t = true) :
    ∃ y rest, t = y ++ rest ∧ y.map capital = x.map capital ∧ matchPieces e ps rest = true := by
  induction x generalizing t with
  | nil => exact ⟨[], t, rfl, rfl, h⟩
  | cons u x ih =>
    cases t with
    | nil => cases h
    | cons v t =>
      rw [List.map_cons, List.cons_append, literalPiece, matchPieces, Bool.and_eq_true] at h
      obtain ⟨y, rest, rfl, hy, hrest⟩ := ih h.2
      refine ⟨v :: y, rest, rfl, ?_, hrest⟩
      rw [List.map_cons, List.map_cons, hy, beq_iff_eq.mp h.1]

/-- Pieces behind a slash match nothing but what begins with a slash. -/
theorem head?_eq_of_matchPieces (hcompile : compile? none (.slash :: gs) = some (ps, e))
    (h : matchPieces e ps t = true) : t.head? = some slash := by
  induction hlength : gs.length using Nat.strong_induction_on generalizing gs ps t with
  | h n ih =>
    have hone {ps : List Piece} (h : matchPieces e (.one (.this slash) :: ps) t = true) : t.head? = some slash := by
      cases t with
      | nil => cases h
      | cons u t =>
        rw [matchPieces, Bool.and_eq_true, UnitClass.holds, beq_iff_eq] at h
        rw [List.head?_cons, capital_eq_slash_iff.mp h.1.symm]
    cases opening gs with
    | none =>
      obtain ⟨rfl, rfl⟩ := Prod.mk.inj (Option.some.inj hcompile)
      rw [beq_iff_eq.mp h]
      rfl
    | stars =>
      obtain ⟨rfl, rfl⟩ := Prod.mk.inj (Option.some.inj hcompile)
      exact beq_iff_eq.mp (Bool.and_eq_true_iff.mp h).1
    | star =>
      obtain ⟨rfl, rfl⟩ := Prod.mk.inj (Option.some.inj hcompile)
      exact hone h
    | plain hslash _ =>
      rw [hslash, Option.map_eq_some_iff] at hcompile
      obtain ⟨⟨ps', e'⟩, -, heq⟩ := hcompile
      obtain ⟨rfl, rfl⟩ := Prod.mk.inj heq
      exact hone h
    | directories rest =>
      rw [compile?, Option.map_eq_some_iff] at hcompile
      obtain ⟨⟨ps', e'⟩, hrest, heq⟩ := hcompile
      obtain ⟨rfl, rfl⟩ := Prod.mk.inj heq
      have hbelow {r : Text} (hr : matchPieces e' ps' r = true) : r.head? = some slash :=
        ih rest.length (by rw [← hlength]; simp only [List.length_cons]; omega) hrest hr rfl
      cases t with
      | nil => exact hbelow h
      | cons u t =>
        rw [matchPieces, skipDirectories, Bool.or_eq_true, Bool.and_eq_true] at h
        obtain h | h := h
        · exact hbelow h
        · rw [List.head?_cons, beq_iff_eq.mp h.1]

/-! ## Matching below slashes -/

/-- No two slashes stand next to each other. -/
def IsSpaced (t : Text) : Prop := t.IsChain fun u v => ¬(u = slash ∧ v = slash)

theorem IsSpaced.tail (h : IsSpaced (u :: t)) : IsSpaced t := List.IsChain.of_cons h

theorem IsSpaced.head?_ne (h : IsSpaced (slash :: t)) : t.head? ≠ some slash := by
  cases t with
  | nil => exact nofun
  | cons u t => exact fun hu => (List.isChain_cons_cons.mp h).1 ⟨rfl, Option.some.inj hu⟩

/-- What follows a slash of a spaced text does not begin with one. -/
theorem afterSomeSlash_congr (ht : IsSpaced t) (h : ∀ rest, rest.head? ≠ some slash → next rest = here rest) :
    afterSomeSlash next t = afterSomeSlash here t := by
  induction t with
  | nil => rfl
  | cons u t ih =>
    rw [afterSomeSlash, afterSomeSlash, ih ht.tail]
    by_cases hu : u = slash
    · subst hu
      rw [h t ht.head?_ne]
    · rw [beq_eq_false_iff_ne.mpr hu, Bool.false_and, Bool.false_and]

/-- To leave directories is to go on after some slash, where what follows begins with one. -/
theorem skipDirectories_slash (hnext : ∀ t, next t = true → t.head? = some slash) (ht : IsSpaced (slash :: t)) :
    skipDirectories next .before (slash :: t) = afterSomeSlash (fun rest => next (slash :: rest)) (slash :: t) := by
  have hall (t : Text) :
      (IsSpaced t → skipDirectories next .name t = afterSomeSlash (fun rest => next (slash :: rest)) t) ∧
      (IsSpaced (slash :: t) → skipDirectories next .slash t = afterSomeSlash (fun rest => next (slash :: rest)) t) := by
    induction t with
    | nil =>
      refine ⟨fun _ => ?_, fun _ => rfl⟩
      show next [] = false
      exact Bool.eq_false_iff.mpr fun h => nomatch hnext [] h
    | cons u t ih =>
      constructor
      · intro hspaced
        rw [skipDirectories, afterSomeSlash]
        by_cases hu : u = slash
        · subst hu
          rw [beq_self_eq_true, if_pos rfl, Bool.true_and, ih.2 hspaced]
        · have hrest : next (u :: t) = false := by
            exact Bool.eq_false_iff.mpr fun h => hu (Option.some.inj (hnext _ h))
          rw [beq_eq_false_iff_ne.mpr hu, if_neg Bool.false_ne_true, hrest, ih.1 hspaced.tail, Bool.false_and]
      · intro hspaced
        have hu : u ≠ slash := fun h => hspaced.head?_ne (congrArg some h)
        rw [skipDirectories, afterSomeSlash, bne_iff_ne.mpr hu, ih.1 hspaced.tail.tail, beq_eq_false_iff_ne.mpr hu,
          Bool.true_and, Bool.false_and, Bool.false_or]
  rw [skipDirectories, afterSomeSlash, (hall t).2 ht, beq_self_eq_true, Bool.true_and, Bool.true_and]

/-- The slash that marks a directory, or nothing. -/
def IsClosing (closing : Text) : Prop := closing = [] ∨ closing = [slash]

theorem isSpaced_append (hname : slash ∉ name) (hu : u ≠ slash ∨ name ≠ []) (ht : IsSpaced t) :
    IsSpaced (u :: (name ++ t)) := by
  induction name generalizing u with
  | nil =>
    cases t with
    | nil => exact .singleton u
    | cons v t => exact List.isChain_cons_cons.mpr ⟨fun h => hu.elim (· h.1) (· rfl), ht⟩
  | cons v name ih =>
    have hv : v ≠ slash := fun h => hname (h ▸ List.mem_cons_self)
    exact List.isChain_cons_cons.mpr ⟨fun h => hv h.2, ih (List.not_mem_of_not_mem_cons hname) (.inl hv)⟩

theorem isSpaced_text (hne : r ≠ []) (hnames : ∀ name ∈ r, IsEntryName name) (hclosing : IsClosing closing) :
    IsSpaced (slash :: (r.text ++ closing)) := by
  induction r with
  | nil => exact absurd rfl hne
  | cons name r ih =>
    obtain ⟨hname, hnames⟩ := List.forall_mem_cons.mp hnames
    by_cases hr : r = []
    · subst hr
      rw [Route.text_singleton]
      have hend : IsSpaced closing := by
        obtain rfl | rfl := hclosing
        · exact .nil
        · exact .singleton slash
      exact isSpaced_append hname.slash_notMem (.inr hname.ne_nil) hend
    · rw [Route.text_cons name hr, List.append_assoc]
      exact isSpaced_append hname.slash_notMem (.inr hname.ne_nil) (ih hr hnames)

/-- What holds of every name holds after the last slash. -/
theorem afterSomeSlash_text (hne : r ≠ []) (hnames : ∀ name ∈ r, IsEntryName name)
    (h : ∀ name, IsEntryName name → here (name ++ closing) = true) :
    afterSomeSlash here (slash :: (r.text ++ closing)) = true := by
  have hskip (name t : Text) (ht : afterSomeSlash here t = true) : afterSomeSlash here (name ++ t) = true := by
    induction name with
    | nil => exact ht
    | cons u name ih => rw [List.cons_append, afterSomeSlash, ih, Bool.or_true]
  induction r with
  | nil => exact absurd rfl hne
  | cons name r ih =>
    obtain ⟨hname, hnames⟩ := List.forall_mem_cons.mp hnames
    by_cases hr : r = []
    · subst hr
      rw [Route.text_singleton, afterSomeSlash, beq_self_eq_true, h name hname]
      rfl
    · have hrest : afterSomeSlash here (name ++ slash :: (Route.text r ++ closing)) = true :=
        hskip name _ (ih hr hnames)
      rw [Route.text_cons name hr, List.append_assoc, afterSomeSlash]
      exact Bool.or_eq_true_iff.mpr (.inr hrest)

/-! ## Patterns below a path -/

/-- The double stars that begin the glyphs are read in another way behind a path than at the top: alone they match one
name at the top, and before others they want one more. -/
def opensOddly : List Glyph → Bool
  | [.star, .star] => true
  | .star :: .star :: .slash :: .star :: .star :: .slash :: _ => true
  | _ => false

theorem skipMany_of_next {c : UnitClass} (ht : next t = true) : skipMany c next t = true := by
  cases t with
  | nil => exact ht
  | cons u t => exact Bool.or_eq_true_iff.mpr (.inl ht)

theorem skipMany_append {c : UnitClass} (hname : ∀ u ∈ name, c.holds u = true) (ht : next t = true) :
    skipMany c next (name ++ t) = true := by
  induction name with
  | nil => exact skipMany_of_next ht
  | cons u name ih =>
    obtain ⟨hu, hname⟩ := List.forall_mem_cons.mp hname
    rw [List.cons_append, skipMany, hu, ih hname, Bool.and_self, Bool.or_true]

/-- Behind a slash, the slash of a directory is what the end is at the top. -/
theorem holds_directory_slash (h : t.head? ≠ some slash) : Ending.directory.holds (slash :: t) = Ending.entry.holds t := by
  cases t with
  | nil => rfl
  | cons u t =>
    have hu : u ≠ slash := fun heq => h (congrArg some heq)
    have hentry : u :: t ≠ [slash] := fun heq => hu (List.cons.inj heq).1
    have hdirectory : slash :: u :: t ≠ [slash] := fun heq => List.cons_ne_nil u t (List.cons.inj heq).2
    rw [Ending.holds, Ending.holds, beq_eq_false_iff_ne.mpr hdirectory, beq_eq_false_iff_ne.mpr hentry,
      beq_eq_false_iff_ne.mpr (List.cons_ne_nil u t)]
    rfl

theorem holds_inside_slash (u : CodeUnit) (t : Text) : Ending.inside.holds (slash :: u :: t) = true := by
  have hlength : 2 ≤ (slash :: u :: t).length := Nat.le_add_left 2 t.length
  rw [Ending.holds, List.head?_cons, beq_self_eq_true, decide_eq_true hlength]
  rfl

theorem holds_entry (hclosing : IsClosing closing) : Ending.entry.holds closing = true := by
  obtain rfl | rfl := hclosing <;> rfl

theorem holds_notSlash (hname : slash ∉ name) : ∀ u ∈ name, UnitClass.notSlash.holds u = true :=
  fun _ hu => bne_iff_ne.mpr fun h => hname (h ▸ hu)

theorem matches_anyLevel (ps : List Piece) (e : Ending) (t : Text) :
    (⟨.anyLevel, ps, e⟩ : Pattern).matches t = afterSomeSlash (matchPieces e ps) (slash :: t) := by
  rw [afterSomeSlash, beq_self_eq_true, Bool.true_and]
  rfl

section Below

variable (tied : Bool) (hne : r ≠ []) (hnames : ∀ name ∈ r, IsEntryName name) (hclosing : IsClosing closing)

include hne hnames hclosing

/-- Double stars that stand for any directories match behind a slash what they match from the top. -/
theorem compile?_slash_directories_matches (hodd : opensOddly (.star :: .star :: .slash :: gs) = false) :
    (compile? none (.slash :: .star :: .star :: .slash :: gs)).map
        (fun c => matchPieces c.2 c.1 (slash :: (r.text ++ closing))) =
      (Pattern.ofGlyphs? tied (.slash :: .star :: .star :: .slash :: gs)).map (·.matches (r.text ++ closing)) := by
  have hspaced := isSpaced_text hne hnames hclosing
  have hbehind : (compile? none (.slash :: .star :: .star :: .slash :: gs)).map
        (fun c => matchPieces c.2 c.1 (slash :: (r.text ++ closing))) =
      (compile? none (.slash :: gs)).map fun c =>
        afterSomeSlash (fun t => matchPieces c.2 c.1 (slash :: t)) (slash :: (r.text ++ closing)) := by
    rw [compile?, Option.map_map]
    apply Option.map_congr
    rintro ⟨ps, e⟩ hrest
    exact skipDirectories_slash (fun _ => head?_eq_of_matchPieces hrest) hspaced
  have htop : (Pattern.ofGlyphs? tied (.slash :: .star :: .star :: .slash :: gs)).map
        (·.matches (r.text ++ closing)) =
      (compile? none gs).map fun c => afterSomeSlash (matchPieces c.2 c.1) (slash :: (r.text ++ closing)) := by
    rw [Pattern.ofGlyphs?]
    cases compile? none gs with
    | none => rfl
    | some c => exact congrArg some (matches_anyLevel c.1 c.2 _)
  -- where the rest matches every name, it does so behind the last slash, however that slash is read
  have hall {next here : Text → Bool} (hnext : ∀ name, IsEntryName name → next (name ++ closing) = true)
      (hhere : ∀ name, IsEntryName name → here (name ++ closing) = true) :
      afterSomeSlash next (slash :: (r.text ++ closing)) = afterSomeSlash here (slash :: (r.text ++ closing)) :=
    (afterSomeSlash_text hne hnames hnext).trans (afterSomeSlash_text hne hnames hhere).symm
  have hmany {name : Text} (hname : slash ∉ name) :
      skipMany .notSlash Ending.entry.holds (name ++ closing) = true :=
    skipMany_append (holds_notSlash hname) (holds_entry hclosing)
  rw [hbehind, htop]
  cases opening gs with
  | none =>
    show some _ = some _
    exact congrArg some (afterSomeSlash_congr hspaced fun _ => holds_directory_slash)
  | star =>
    show some _ = some _
    refine congrArg some (hall (fun name hname => ?_) fun name hname => hmany hname.slash_notMem)
    obtain ⟨u, name, rfl⟩ := List.exists_cons_of_ne_nil hname.ne_nil
    have hu : (u != slash) = true := holds_notSlash hname.slash_notMem u List.mem_cons_self
    have hrest := hmany (List.not_mem_of_not_mem_cons hname.slash_notMem)
    show (_ && ((u != slash) && skipMany .notSlash Ending.entry.holds (name ++ closing))) = true
    rw [hu, hrest]
    rfl
  | stars =>
    show some _ = some _
    refine congrArg some (hall (fun name hname => ?_) fun name hname => ?_)
    · obtain ⟨u, name, rfl⟩ := List.exists_cons_of_ne_nil hname.ne_nil
      exact holds_inside_slash u (name ++ closing)
    · exact skipMany_of_next (hmany hname.slash_notMem)
  | directories => cases hodd
  | plain hslash _ =>
    rw [hslash, Option.map_map]
    rfl

/-- What glyphs match behind a slash is what they match from the top. -/
theorem compile?_slash_matches (hodd : opensOddly gs = false) :
    (compile? none (.slash :: gs)).map (fun c => matchPieces c.2 c.1 (slash :: (r.text ++ closing))) =
      (Pattern.ofGlyphs? tied (.slash :: gs)).map (·.matches (r.text ++ closing)) := by
  cases opening gs with
  | none =>
    show some _ = some _
    exact congrArg some (holds_directory_slash (isSpaced_text hne hnames hclosing).head?_ne)
  | stars => cases hodd
  | star => rfl
  | plain hslash hglyphs =>
    rw [hslash, hglyphs tied, Option.map_map, Option.map_map]
    congr 1
  | directories rest => exact compile?_slash_directories_matches tied hne hnames hclosing hodd

end Below

/-- The text stands for itself in a pattern, and a rule that begins with it is read as a pattern from its start. -/
structure IsLiteralPath (x : Text) : Prop where
  ne_nil : x ≠ []
  literal : ∀ u ∈ x, isLiteral u = true
  relative : x.head? ≠ some slash
  unmarked : x.head? ≠ some byteOrderMark

namespace IsLiteralPath

variable (hx : IsLiteralPath x)

include hx

theorem ofGlyphs?_eq (tied : Bool) (gs : List Glyph) :
    Pattern.ofGlyphs? tied (x.map .ofUnit ++ .slash :: gs) =
      (compile? none (.slash :: gs)).map fun c =>
        ⟨if tied then .top else .anyLevel, x.map literalPiece ++ c.1, c.2⟩ := by
  obtain ⟨u, x, rfl⟩ := List.exists_cons_of_ne_nil hx.ne_nil
  have hu := hx.literal u List.mem_cons_self
  have hslash : Glyph.ofUnit u ≠ .slash := ofUnit_ne_slash fun h => hx.relative (congrArg some h)
  have hcompile := compile?_append hx.literal gs
  rw [List.map_cons, List.cons_append] at hcompile ⊢
  rw [Pattern.ofGlyphs?]
  · rw [hcompile]
    cases compile? none (.slash :: gs) <;> rfl
  · exact List.cons_ne_nil _ _
  · exact fun _ h => hslash (List.cons.inj h).1
  · exact fun _ h => ofUnit_ne_star hu (List.cons.inj h).1
  · exact fun h => hslash (List.cons.inj h).1
  · exact fun _ h => hslash (List.cons.inj h).1

/-- The pattern behind a literal path begins with its units and goes on with what stands behind the slash. -/
theorem ofText?_eq (hs : s ≠ []) : Pattern.ofText? (x ++ slash :: s) = (patternGlyphs? s).bind fun gs =>
    (compile? none (.slash :: gs)).map fun c => ⟨.top, x.map literalPiece ++ c.1, c.2⟩ := by
  have hmark : dropMark (x ++ slash :: s) = x ++ slash :: s := by
    rw [dropMark, List.head?_append_of_ne_nil _ hx.ne_nil, if_neg hx.unmarked]
  have hslash : hasInnerSlash (x ++ slash :: s) = true := by
    rw [hasInnerSlash, List.contains_iff_mem, List.dropLast_append_of_ne_nil (List.cons_ne_nil _ _),
      List.dropLast_cons_of_ne_nil hs]
    exact List.mem_append_right _ List.mem_cons_self
  rw [Ignore.ofText?_eq, hmark, hslash, patternGlyphs?_append hx.literal, Option.bind_map]
  congr 1
  funext gs
  exact hx.ofGlyphs?_eq true gs

theorem matches_append (hs : s ≠ []) (hodd : (patternGlyphs? s).any opensOddly = false) (hne : r ≠ [])
    (hnames : ∀ name ∈ r, IsEntryName name) (hclosing : IsClosing closing) :
    (Pattern.ofText? (x ++ slash :: s)).map (·.matches (x ++ slash :: (r.text ++ closing))) =
      (Pattern.ofText? (slash :: s)).map (·.matches (r.text ++ closing)) := by
  have hmark : dropMark (slash :: s) = slash :: s := if_neg (by rw [List.head?_cons]; decide)
  rw [hx.ofText?_eq hs, Ignore.ofText?_eq, hmark, patternGlyphs?_slash, Option.bind_map]
  cases hglyphs : patternGlyphs? s with
  | none => rfl
  | some gs =>
    rw [hglyphs] at hodd
    rw [Option.bind_some, Option.bind_some, Option.map_map]
    refine Eq.trans ?_ (compile?_slash_matches (hasInnerSlash (slash :: s)) hne hnames hclosing hodd)
    congr 1
    funext c
    exact matchPieces_map_append x

/-- Whatever is matched begins with the path, the case of letters apart, and a slash. -/
theorem exists_of_matches (hs : s ≠ []) {p : Pattern} (hp : Pattern.ofText? (x ++ slash :: s) = some p)
    (h : p.matches t = true) : ∃ y rest, t = y ++ slash :: rest ∧ y.map capital = x.map capital := by
  rw [hx.ofText?_eq hs, Option.bind_eq_some_iff] at hp
  obtain ⟨gs, -, hp⟩ := hp
  rw [Option.map_eq_some_iff] at hp
  obtain ⟨⟨ps, e⟩, hcompile, rfl⟩ := hp
  obtain ⟨y, rest, rfl, hy, hrest⟩ := exists_of_matchPieces_map h
  have hslash := head?_eq_of_matchPieces hcompile hrest
  obtain ⟨rest, rfl⟩ := List.head?_eq_some_iff.mp hslash
  exact ⟨y, rest, rfl, hy⟩

end IsLiteralPath

end CCompletion.Ignore
