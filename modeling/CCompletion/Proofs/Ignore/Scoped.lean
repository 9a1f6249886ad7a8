import CCompletion.Proofs.Ignore.Prefix

/-!
# Lines of nested ignore files

A line of the ignore file of a directory is put behind the path of that directory and read at the root. There it means
below the directory what it would mean at the root if it were tied to the top. So a line that is tied to the top keeps
its meaning; one that is not, and so speaks of entries at every depth, is taken to speak of the directory's own alone.
-/

namespace CCompletion.Ignore

variable {d r : Route} {line t s closing : Text} {u : CodeUnit}

/-! ## Rules on lines -/

/-- What a line says of a path: whether its rule is a negated one, and whether it matches. A line without a rule says
nothing, and an invalid one has no reading. -/
def reading (line path : Text) : Option (Option (Bool × Bool)) :=
  (Rule.ofLine? line).map fun rule? => rule?.map fun rule => (rule.negated, rule.pattern.matches path)

/-- The mark of a rule. -/
def ruleMark (negated : Bool) : Text := if negated then [unit '!'] else []

/-- The pattern is read from its first unit on. -/
structure IsPlainStart (negated : Bool) (t : Text) : Prop where
  unquoted : t.head? ≠ some backslash
  unnegated : negated = false → t.head? ≠ some (unit '!')
  uncommented : negated = false → t.head? ≠ some (unit '#')

theorem unquoteFirst_eq (h : t.head? ≠ some backslash) : unquoteFirst t = t := by
  have hstarts (v : CodeUnit) : ¬[backslash, v].isPrefixOf t = true := by
    intro hstarts
    obtain ⟨rest, rfl⟩ := List.isPrefixOf_iff_prefix.mp hstarts
    exact h rfl
  have hnegated : Text.ofString "\\!" = [backslash, unit '!'] := by decide
  have hcomment : Text.ofString "\\#" = [backslash, unit '#'] := by decide
  simp only [unquoteFirst, hnegated, hcomment, if_neg (hstarts _)]

theorem ofLine?_eq {negated : Bool} (h : IsPlainStart negated t) (hink : IsInked t) :
    Rule.ofLine? (ruleMark negated ++ t) =
      if trailingBackslashes t = 1 then some none else (Pattern.ofText? t).map fun p => some ⟨negated, p⟩ := by
  have hblank : (ruleMark negated ++ t).all isBlank = false := by
    obtain ⟨u, hu, hblank⟩ := hink
    exact List.all_eq_false.mpr ⟨u, List.mem_append_right _ hu, by rw [hblank]; decide⟩
  have hcomment : (ruleMark negated ++ t).head? ≠ some (unit '#') := by
    cases negated with
    | false => exact h.uncommented rfl
    | true => exact fun h => absurd (Option.some.inj h) (by decide)
  have htrailing : trailingBackslashes (ruleMark negated ++ t) = trailingBackslashes t := by
    cases negated with
    | false => rfl
    | true => exact trailingBackslashes_cons (by decide) t
  have hrule : holdsRule (ruleMark negated ++ t) = (trailingBackslashes t != 1) := by
    rw [holdsRule, hblank, bne_iff_ne.mpr hcomment, htrailing, Bool.not_false, Bool.true_and, Bool.true_and]
  have hpattern : (if (ruleMark negated ++ t).head? = some (unit '!') then (ruleMark negated ++ t).drop 1
      else ruleMark negated ++ t) = t := by
    cases negated with
    | false => exact if_neg (h.unnegated rfl)
    | true => rfl
  have hnegated : decide ((ruleMark negated ++ t).head? = some (unit '!')) = negated := by
    cases negated with
    | false => exact decide_eq_false (h.unnegated rfl)
    | true => rfl
  rw [Rule.ofLine?, hrule]
  simp only [hpattern, unquoteFirst_eq h.unquoted, hnegated]
  by_cases hlast : trailingBackslashes t = 1
  · rw [hlast]
    rfl
  · rw [if_neg hlast, bne_iff_ne.mpr hlast]
    rfl

/-! ## Directories and lines -/

/-- A directory below the root whose path is literal in patterns, and that no rule begins with in another sense. -/
structure IsScope (d : Route) : Prop where
  ne_nil : d ≠ []
  names : ∀ name ∈ d, IsEntryName name
  literal : ∀ u ∈ d.text, isLiteral u = true
  unmarked : d.text.head? ≠ some byteOrderMark
  unnegated : d.text.head? ≠ some (unit '!')
  uncommented : d.text.head? ≠ some (unit '#')

theorem IsScope.isLiteralPath (hd : IsScope d) : IsLiteralPath d.text where
  ne_nil := Path.text_ne_nil hd.ne_nil hd.names
  literal := hd.literal
  relative := by
    have habsolute := Path.not_isAbsolute_text hd.ne_nil hd.names []
    rw [List.append_nil, Path.isAbsolute, beq_eq_false_iff_ne] at habsolute
    exact habsolute
  unmarked := hd.unmarked

def isNegated (line : Text) : Bool := line.trim.head? = some (unit '!')

/-- The pattern on a line, without blanks around it. -/
def patternPart (line : Text) : Text := if isNegated line then line.trim.drop 1 else line.trim

/-- The pattern on a line, as a path from the directory of its file. -/
def relativePart (line : Text) : Text :=
  if (patternPart line).head? = some slash then (patternPart line).drop 1 else patternPart line

/-- Where a pattern leads, read as a path. -/
def wayDown (line : Text) : Route := Path.route true (relativePart line)

/-- The pattern without needless names. -/
def normalPart (line : Text) : Text := (wayDown line).text ++ Path.closing (relativePart line)

/-- The line holds a pattern, and this leads to something below the directory of its file. -/
structure LeadsDown (line : Text) : Prop where
  uncommented : line.trim.head? ≠ some (unit '#')
  stays : (".." : Text) ∉ wayDown line
  moves : wayDown line ≠ []

/-- The line, its pattern being tied to the top. -/
def anchoredLine (line : Text) : Text := ruleMark (isNegated line) ++ slash :: normalPart line

namespace LeadsDown

variable (h : LeadsDown line)

include h

theorem relativePart_ne_nil : relativePart line ≠ [] := by
  intro hnil
  have hmoves := h.moves
  rw [wayDown, hnil] at hmoves
  exact hmoves rfl

theorem trim_ne_nil : line.trim ≠ [] := by
  intro hnil
  apply h.relativePart_ne_nil
  rw [relativePart, patternPart, hnil]
  cases isNegated line <;> rfl

theorem normalPart_ne_nil : normalPart line ≠ [] :=
  List.append_ne_nil_of_left_ne_nil
    (Path.text_ne_nil h.moves fun _ => Path.isEntryName_of_mem_route h.stays) _

/-- The pattern is put behind the path of the directory. -/
theorem scopedLine_eq (hd : IsScope d) :
    scopedLine d line = ruleMark (isNegated line) ++ (d.text ++ slash :: normalPart line) := by
  have hjoin : Path.join d.text (relativePart line) = d.text ++ slash :: normalPart line := by
    rw [Path.join_text hd.ne_nil hd.names h.relativePart_ne_nil h.stays, ← wayDown, Route.text_append hd.ne_nil h.moves,
      List.append_assoc]
    rfl
  have hrule : ¬(line.trim = [] ∨ line.trim.head? = some (unit '#')) := not_or.mpr ⟨h.trim_ne_nil, h.uncommented⟩
  have hscoped : scopedLine d line = if isNegated line then unit '!' :: Path.join d.text (relativePart line)
      else Path.join d.text (relativePart line) := by
    simp only [scopedLine, if_neg hrule, relativePart, patternPart, isNegated, decide_eq_true_eq]
  rw [hscoped, hjoin]
  cases isNegated line <;> rfl

end LeadsDown

/-! ## Readings -/

theorem trailingBackslashes_append {x : Text} (hx : ∀ u ∈ x, isLiteral u = true) (t : Text) :
    trailingBackslashes (x ++ t) = trailingBackslashes t := by
  induction x with
  | nil => rfl
  | cons u x ih =>
    obtain ⟨hu, hx⟩ := List.forall_mem_cons.mp hx
    rw [List.cons_append, trailingBackslashes_cons (isLiteral_iff.mp hu).2.2.2, ih hx]

theorem isPlainStart_slash (negated : Bool) (t : Text) : IsPlainStart negated (slash :: t) where
  unquoted h := absurd (Option.some.inj h) (by decide)
  unnegated _ h := absurd (Option.some.inj h) (by decide)
  uncommented _ h := absurd (Option.some.inj h) (by decide)

theorem IsScope.isPlainStart (hd : IsScope d) (negated : Bool) (t : Text) : IsPlainStart negated (d.text ++ t) := by
  have hne := hd.isLiteralPath.ne_nil
  have hhead : (d.text ++ t).head? = d.text.head? := List.head?_append_of_ne_nil _ hne
  refine ⟨fun h => ?_, fun _ h => hd.unnegated (hhead.symm.trans h), fun _ h => hd.uncommented (hhead.symm.trans h)⟩
  have hmem : backslash ∈ d.text := List.mem_of_head? (hhead.symm.trans h)
  exact absurd (hd.literal _ hmem) (by decide)

/-- What a rule on a line says of a path. -/
theorem reading_eq {negated : Bool} (h : IsPlainStart negated t) (hink : IsInked t) (path : Text) :
    reading (ruleMark negated ++ t) path = if trailingBackslashes t = 1 then some none
      else ((Pattern.ofText? t).map (·.matches path)).map fun matched => some (negated, matched) := by
  rw [reading, ofLine?_eq h hink]
  split
  · rfl
  · rw [Option.map_map, Option.map_map]
    rfl

/-- Below its directory, the line of a nested file says what it says at the root when it is tied to the top. -/
theorem reading_scopedLine_eq (hd : IsScope d) (h : LeadsDown line)
    (hodd : (patternGlyphs? (normalPart line)).any opensOddly = false) (hne : r ≠ [])
    (hnames : ∀ name ∈ r, IsEntryName name) (hclosing : IsClosing closing) :
    reading (scopedLine d line) ((d ++ r).text ++ closing) = reading (anchoredLine line) (r.text ++ closing) := by
  have hpath : (d ++ r).text ++ closing = d.text ++ slash :: (r.text ++ closing) := by
    rw [Route.text_append hd.ne_nil hne, List.append_assoc]
    rfl
  rw [h.scopedLine_eq hd, anchoredLine, hpath, reading_eq (hd.isPlainStart _ _) (isInked_of_slash_mem (by simp)),
    reading_eq (isPlainStart_slash _ _) (isInked_slash_cons _), trailingBackslashes_append hd.literal,
    hd.isLiteralPath.matches_append h.normalPart_ne_nil hodd hne hnames hclosing]

/-! ## Lines that are tied to the top, and others -/

/-- The line holds nothing but a pattern in normal form. -/
structure IsNormal (line : Text) : Prop where
  trimmed : line.trim = line
  normal : relativePart line = normalPart line
  unquoted : (patternPart line).head? ≠ some backslash
  unmarked : (patternPart line).head? ≠ some byteOrderMark

theorem unquoteBlanks_ne_nil (n : Nat) (u : CodeUnit) (t : Text) : unquoteBlanks n (u :: t) ≠ [] := by
  induction t generalizing n u with
  | nil =>
    rw [unquoteBlanks]
    split_ifs
    · exact List.cons_ne_nil _ _
    · exact List.append_ne_nil_of_right_ne_nil _ (List.cons_ne_nil _ _)
    · exact List.append_ne_nil_of_right_ne_nil _ (List.cons_ne_nil _ _)
  | cons v t ih =>
    rw [unquoteBlanks]
    split_ifs
    · exact ih (n + 1) v
    · exact List.append_ne_nil_of_right_ne_nil _ (List.cons_ne_nil _ _)
    · exact List.append_ne_nil_of_right_ne_nil _ (List.cons_ne_nil _ _)

theorem quote_ne_nil (u : CodeUnit) (gs : List Glyph) : quote u gs ≠ [] := by
  fun_cases quote u gs <;> exact List.cons_ne_nil _ _

theorem glyphs?_ne_some_nil (u : CodeUnit) (t : Text) : glyphs? (u :: t) ≠ some [] := by
  cases t with
  | nil =>
    rw [glyphs?]
    split_ifs <;> exact nofun
  | cons v t =>
    rw [glyphs?]
    split_ifs <;> rw [ne_eq, Option.map_eq_some_iff]
    · exact fun ⟨_, _, h⟩ => List.cons_ne_nil _ _ h
    · exact fun ⟨_, _, h⟩ => quote_ne_nil _ _ h
    · exact fun ⟨_, _, h⟩ => List.cons_ne_nil _ _ h

theorem unquoteLastStar_ne_nil (g : Glyph) (gs : List Glyph) : unquoteLastStar (g :: gs) ≠ [] := by
  unfold unquoteLastStar
  split
  · rename_i h
    exact absurd h (List.cons_ne_nil _ _)
  · split_ifs <;> exact List.cons_ne_nil _ _
  · exact List.cons_ne_nil _ _

/-- A text that is not blank has glyphs. -/
theorem not_isInked_of_patternGlyphs? (h : patternGlyphs? t = some []) : ¬IsInked t := by
  rw [patternGlyphs?, Option.map_eq_some_iff] at h
  obtain ⟨gs, hglyphs, hgs⟩ := h
  obtain rfl : gs = [] := by
    cases gs with
    | nil => rfl
    | cons g gs => exact absurd hgs (unquoteLastStar_ne_nil g gs)
  have hbody : unquoteBlanks 0 (trimUnquoted t) = [] := by
    cases hbody : unquoteBlanks 0 (trimUnquoted t) with
    | nil => rfl
    | cons u body => exact absurd (hbody ▸ hglyphs) (glyphs?_ne_some_nil u body)
  have htrimmed : trimUnquoted t = [] := by
    cases htrimmed : trimUnquoted t with
    | nil => rfl
    | cons u trimmed => exact absurd (htrimmed ▸ hbody) (unquoteBlanks_ne_nil 0 u trimmed)
  rw [← trimEnd_eq_nil_iff]
  simp only [trimUnquoted] at htrimmed
  split_ifs at htrimmed
  · exact absurd htrimmed (List.append_ne_nil_of_right_ne_nil _ (List.cons_ne_nil _ _))
  · exact htrimmed

theorem ofText?_cons (hu : u ≠ backslash) (hmark : u ≠ byteOrderMark) (hink : IsInked (u :: t)) :
    Pattern.ofText? (u :: t) =
      (patternGlyphs? t).bind fun gs => Pattern.ofGlyphs? (hasInnerSlash (u :: t)) (.ofUnit u :: gs) := by
  have hwhole : dropMark (u :: t) = u :: t := if_neg fun h => hmark (Option.some.inj h)
  rw [ofText?_eq, hwhole, patternGlyphs?_cons hu hink, Option.bind_map]
  rfl

section Slash

variable {g : Glyph} {gs : List Glyph} (tied : Bool)

/-- Glyphs that are tied to the top are not changed by a slash in front. -/
theorem ofGlyphs?_slash (hg : g ≠ .slash) (hgs : gs ≠ []) :
    Pattern.ofGlyphs? tied (.slash :: g :: gs) = Pattern.ofGlyphs? true (g :: gs) := by
  by_cases hdirectories : ∃ rest, g :: gs = .star :: .star :: .slash :: rest
  · obtain ⟨rest, hrest⟩ := hdirectories
    rw [hrest]
    rfl
  · rw [Pattern.ofGlyphs?, Pattern.ofGlyphs?]
    · rfl
    · exact List.cons_ne_nil _ _
    · exact fun _ h => hg (List.cons.inj h).1
    · exact fun rest h => hdirectories ⟨rest, h⟩
    · exact fun h => hg (List.cons.inj h).1
    · exact fun _ h => hg (List.cons.inj h).1
    · exact fun rest h => hdirectories ⟨rest, h⟩
    · exact fun h => hgs (List.cons.inj h).2

theorem matches_of_top {ps : List Piece} {e : Ending} {path : Text}
    (h : (⟨.top, ps, e⟩ : Pattern).matches path = true) : (⟨.anyLevel, ps, e⟩ : Pattern).matches path = true :=
  Bool.or_eq_true_iff.mpr (.inl h)

/-- What glyphs match with a slash in front they match at every level without it. -/
theorem exists_ofGlyphs?_of_slash (hg : g ≠ .slash) {p : Pattern} {path : Text}
    (hp : Pattern.ofGlyphs? tied (.slash :: g :: gs) = some p) (h : p.matches path = true) :
    ∃ q, Pattern.ofGlyphs? false (g :: gs) = some q ∧ q.matches path = true := by
  by_cases hdirectories : ∃ rest, g :: gs = .star :: .star :: .slash :: rest
  · obtain ⟨rest, hrest⟩ := hdirectories
    rw [hrest] at hp ⊢
    exact ⟨p, hp, h⟩
  by_cases hstar : g :: gs = [.star]
  · -- behind a slash the star wants one unit at least
    obtain ⟨rfl, rfl⟩ := List.cons.inj hstar
    obtain rfl := Option.some.inj hp
    refine ⟨⟨.anyLevel, [.many .notSlash], .entry⟩, rfl, matches_of_top ?_⟩
    cases path with
    | nil => cases h
    | cons u path =>
      obtain ⟨hu, hrest⟩ := Bool.and_eq_true_iff.mp h
      exact Bool.or_eq_true_iff.mpr (.inr (Bool.and_eq_true_iff.mpr ⟨hu, hrest⟩))
  · have htop : Pattern.ofGlyphs? tied (.slash :: g :: gs) =
        (compile? none (g :: gs)).map fun c => ⟨.top, c.1, c.2⟩ := by
      rw [Pattern.ofGlyphs?]
      · cases compile? none (g :: gs) <;> rfl
      · exact fun rest h => hdirectories ⟨rest, h⟩
      · exact hstar
    have hbare : Pattern.ofGlyphs? false (g :: gs) =
        (compile? none (g :: gs)).map fun c => ⟨.anyLevel, c.1, c.2⟩ := by
      rw [Pattern.ofGlyphs?]
      · cases compile? none (g :: gs) <;> rfl
      · exact List.cons_ne_nil _ _
      · exact fun _ h => hg (List.cons.inj h).1
      · exact fun rest h => hdirectories ⟨rest, h⟩
      · exact fun h => hg (List.cons.inj h).1
      · exact fun _ h => hg (List.cons.inj h).1
    rw [htop, Option.map_eq_some_iff] at hp
    obtain ⟨c, hc, rfl⟩ := hp
    exact ⟨_, by rw [hbare, hc]; rfl, matches_of_top h⟩

end Slash

section Text

variable (hslash : t.head? ≠ some slash) (hunquoted : t.head? ≠ some backslash)
  (hunmarked : t.head? ≠ some byteOrderMark)

include hslash hunquoted hunmarked

/-- A slash in front of a pattern that another slash ties to the top changes nothing. -/
theorem ofText?_slash (htied : hasInnerSlash t = true) : Pattern.ofText? (slash :: t) = Pattern.ofText? t := by
  cases t with
  | nil => cases htied
  | cons u t =>
    have hu : u ≠ slash := fun h => hslash (congrArg some h)
    have hu' : u ≠ backslash := fun h => hunquoted (congrArg some h)
    have hmem : slash ∈ t := by
      rw [hasInnerSlash, List.contains_iff_mem] at htied
      exact (List.mem_cons.mp (List.dropLast_subset _ htied)).resolve_left (Ne.symm hu)
    have hink : IsInked (u :: t) := isInked_of_slash_mem (List.mem_cons_of_mem u hmem)
    rw [ofText?_cons (by decide) (by decide) (isInked_slash_cons _), patternGlyphs?_cons hu' hink, Option.bind_map,
      ofText?_cons hu' (fun h => hunmarked (congrArg some h)) hink, htied]
    cases hglyphs : patternGlyphs? t with
    | none => rfl
    | some gs =>
      have hgs : gs ≠ [] := fun hnil => not_isInked_of_patternGlyphs? (hnil ▸ hglyphs) (isInked_of_slash_mem hmem)
      exact ofGlyphs?_slash _ (ofUnit_ne_slash hu) hgs

/-- What a bare pattern matches with a slash in front it matches without it. -/
theorem exists_ofText?_of_slash (hink : IsInked t) (hbare : hasInnerSlash t = false) {p : Pattern} {path : Text}
    (hp : Pattern.ofText? (slash :: t) = some p) (h : p.matches path = true) :
    ∃ q, Pattern.ofText? t = some q ∧ q.matches path = true := by
  cases t with
  | nil =>
    obtain ⟨_, hnil, _⟩ := hink
    cases hnil
  | cons u t =>
    have hu : u ≠ slash := fun h => hslash (congrArg some h)
    have hu' : u ≠ backslash := fun h => hunquoted (congrArg some h)
    rw [ofText?_cons (by decide) (by decide) (isInked_slash_cons _), patternGlyphs?_cons hu' hink, Option.bind_map] at hp
    rw [ofText?_cons hu' (fun h => hunmarked (congrArg some h)) hink, hbare]
    obtain ⟨gs, hgs, hglyphs⟩ := Option.bind_eq_some_iff.mp hp
    obtain ⟨q, hq, hmatches⟩ := exists_ofGlyphs?_of_slash _ (ofUnit_ne_slash hu) hglyphs h
    exact ⟨q, by rw [hgs]; exact hq, hmatches⟩

end Text

theorem eq_ruleMark_append (htrimmed : line.trim = line) : line = ruleMark (isNegated line) ++ patternPart line := by
  rw [patternPart]
  cases hnegated : isNegated line with
  | false => exact htrimmed.symm
  | true =>
    have hhead : line.trim.head? = some (unit '!') := of_decide_eq_true hnegated
    rw [htrimmed] at hhead ⊢
    obtain ⟨rest, rfl⟩ := List.head?_eq_some_iff.mp hhead
    rfl

namespace IsNormal

variable (h : IsNormal line) (hdown : LeadsDown line)

include h hdown

theorem isPlainStart : IsPlainStart (isNegated line) (patternPart line) := by
  refine ⟨h.unquoted, fun hnegated => ?_, fun hnegated => ?_⟩
  · rw [patternPart, hnegated]
    exact of_decide_eq_false hnegated
  · rw [patternPart, hnegated]
    exact hdown.uncommented

theorem isInked : IsInked (patternPart line) := by
  -- a line with a blank pattern is blank, or trimmed to its mark
  by_contra hblank
  have hline := eq_ruleMark_append h.trimmed
  cases hnegated : isNegated line with
  | false =>
    rw [hnegated, ruleMark, if_neg Bool.false_ne_true, List.nil_append] at hline
    have hstart : line.trimStart = [] := by
      rw [← hline, ← trimEnd_eq_nil_iff, Text.trimEnd, List.reverse_eq_nil_iff, List.dropWhile_eq_nil_iff] at hblank
      exact List.dropWhile_eq_nil_iff.mpr fun u hu => hblank u (List.mem_reverse.mpr hu)
    apply hdown.trim_ne_nil
    rw [Text.trim, hstart]
    rfl
  | true =>
    rw [hnegated] at hline
    have hmark : isBlank (unit '!') = false := by decide
    have htrim : line.trim = [unit '!'] := by
      rw [hline]
      show Text.trimEnd (List.dropWhile isBlank (unit '!' :: patternPart line)) = _
      rw [List.dropWhile_cons_of_neg (by rw [hmark]; decide), trimEnd_cons ⟨_, List.mem_cons_self, hmark⟩,
        trimEnd_eq_nil_iff.mpr hblank]
    apply hdown.relativePart_ne_nil
    rw [relativePart, patternPart, hnegated, htrim]
    rfl

/-- A line that is tied to the top says at the root what it says with its pattern tied to the top. -/
theorem reading_anchoredLine (htied : hasInnerSlash (patternPart line) = true) (path : Text) :
    reading (anchoredLine line) path = reading line path := by
  rw [anchoredLine, ← h.normal]
  by_cases hslash : (patternPart line).head? = some slash
  · have hpart : slash :: relativePart line = patternPart line := by
      rw [relativePart, if_pos hslash]
      obtain ⟨rest, hrest⟩ := List.head?_eq_some_iff.mp hslash
      rw [hrest]
      rfl
    rw [hpart, ← eq_ruleMark_append h.trimmed]
  · rw [relativePart, if_neg hslash, reading_eq (isPlainStart_slash _ _) (isInked_slash_cons _),
      trailingBackslashes_cons (by decide), ofText?_slash hslash h.unquoted h.unmarked htied,
      ← reading_eq (h.isPlainStart hdown) (h.isInked hdown), ← eq_ruleMark_append h.trimmed]

/-- What a bare line matches with its pattern tied to the top it matches without that. -/
theorem reading_of_anchoredLine (hbare : hasInnerSlash (patternPart line) = false) {path : Text} {negated : Bool}
    (hreading : reading (anchoredLine line) path = some (some (negated, true))) :
    reading line path = some (some (negated, true)) := by
  have hslash : (patternPart line).head? ≠ some slash := by
    intro hslash
    obtain ⟨rest, hrest⟩ := List.head?_eq_some_iff.mp hslash
    have hend : rest = [] := by
      by_contra hne
      rw [hasInnerSlash, hrest, List.dropLast_cons_of_ne_nil hne, List.contains_cons, beq_self_eq_true] at hbare
      cases hbare
    apply hdown.relativePart_ne_nil
    rw [relativePart, if_pos hslash, hrest, hend]
    rfl
  rw [anchoredLine, ← h.normal, relativePart, if_neg hslash, reading_eq (isPlainStart_slash _ _) (isInked_slash_cons _),
    trailingBackslashes_cons (by decide)] at hreading
  rw [eq_ruleMark_append h.trimmed, reading_eq (h.isPlainStart hdown) (h.isInked hdown)]
  split_ifs at hreading ⊢ with hlast
  · cases hreading
  · rw [Option.map_map, Option.map_eq_some_iff] at hreading
    obtain ⟨p, hp, hmatched⟩ := hreading
    obtain ⟨rfl, hmatches⟩ := Prod.mk.inj (Option.some.inj hmatched)
    obtain ⟨q, hq, hmatches'⟩ :=
      exists_ofText?_of_slash hslash h.unquoted h.unmarked (h.isInked hdown) hbare hp hmatches
    rw [hq, Option.map_some, Option.map_some, hmatches']

end IsNormal

/-- Below its directory, the line of a nested file says what it says at the root when its pattern is tied to the top. So
a line that is tied to the top by itself says what it says at the root, negated lines and those for directories alone
among them. One that is not is read as if it were: it matches nothing but what it matches at the root. -/
theorem reading_scopedLine (hd : IsScope d) (h : LeadsDown line)
    (hodd : (patternGlyphs? (normalPart line)).any opensOddly = false) (hne : r ≠ [])
    (hnames : ∀ name ∈ r, IsEntryName name) (hclosing : IsClosing closing) :
    reading (scopedLine d line) ((d ++ r).text ++ closing) = reading (anchoredLine line) (r.text ++ closing) ∧
      (IsNormal line →
        (hasInnerSlash (patternPart line) = true →
          reading (scopedLine d line) ((d ++ r).text ++ closing) = reading line (r.text ++ closing)) ∧
        (hasInnerSlash (patternPart line) = false → ∀ negated,
          reading (scopedLine d line) ((d ++ r).text ++ closing) = some (some (negated, true)) →
            reading line (r.text ++ closing) = some (some (negated, true)))) := by
  have hscoped := reading_scopedLine_eq hd h hodd hne hnames hclosing
  refine ⟨hscoped, fun hnormal => ⟨fun htied => ?_, fun hbare negated hreading => ?_⟩⟩
  · exact hscoped.trans (hnormal.reading_anchoredLine h htied _)
  · exact hnormal.reading_of_anchoredLine h hbare (hscoped.symm.trans hreading)

theorem isScope_src : IsScope ["src"] where
  ne_nil := List.cons_ne_nil _ _
  names := by decide
  literal := List.all_eq_true.mp (by decide)
  unmarked := by decide
  unnegated := by decide
  uncommented := by decide

theorem reading_scopedLine_negated :
    reading (scopedLine ["src"] "!/gen/*.c") (Route.text ["src", "gen", "a.c"]) = some (some (true, true)) := by
  have hdown : LeadsDown "!/gen/*.c" := by constructor <;> decide
  have hnormal : IsNormal "!/gen/*.c" := by constructor <;> decide
  have hpath : (["gen", "a.c"] : Route) ≠ [] := List.cons_ne_nil _ _
  obtain ⟨-, hsame⟩ := reading_scopedLine isScope_src hdown (by decide) hpath (by decide) (.inl rfl)
  exact ((hsame hnormal).1 (by decide)).trans (by decide)

/-- A name on a line of a nested file stands for that entry of its directory alone, though at the root it stands for
the entries of that name at every depth. -/
theorem reading_scopedLine_bare :
    reading (scopedLine ["src"] "gen.c") (Route.text ["src", "sub", "gen.c"]) = some (some (false, false)) ∧
      reading "gen.c" (Route.text ["sub", "gen.c"]) = some (some (false, true)) := by
  decide

end CCompletion.Ignore
