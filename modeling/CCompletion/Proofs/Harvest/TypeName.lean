import CCompletion.Proofs.Harvest.Name
import CCompletion.Proofs.Source.CodeWord

/-!
# Where type names come from

A tag is a whole word of the code. The name that a `typedef` introduces is looked for in its declaration without the
bodies in braces, where words that touch a body from both sides have become one; and the word that is found is
taken without the digits in front of it.
-/

namespace CCompletion.Harvest

variable {t d w x y rest name : Text} {u : CodeUnit} {depth : Nat}

/-! ## Declarations without their bodies -/

/-- How many braces are open behind a unit. -/
def depthBehind (depth : Nat) (u : CodeUnit) : Nat :=
  if u = unit '\x7b' then depth + 1 else if u = unit '\x7d' then depth - 1 else depth

theorem depthBehind_of_ne (hopen : u ≠ unit '\x7b') (hclose : u ≠ unit '\x7d') (depth : Nat) :
    depthBehind depth u = depth := by
  rw [depthBehind, if_neg hopen, if_neg hclose]

/-- How many braces are open at the end of a text. -/
def depthAfter (depth : Nat) (t : Text) : Nat := t.foldl depthBehind depth

/-- A stretch of braces and of what they enclose. -/
structure IsBraced (t : Text) : Prop where
  ne_nil : t ≠ []
  outside : outsideBraces 0 t = []
  closed : depthAfter 0 t = 0

/-- The pieces stand at the start of a text, one behind the other with a stretch of braces between them, and no
identifier unit follows the last one. -/
inductive Pieced : List Text → Text → Prop
  | last (piece : Text) {rest : Text} : piece ≠ [] → Text.startsInWord rest = false → Pieced [piece] (piece ++ rest)
  | next (piece : Text) {braces rest : Text} {pieces : List Text} : piece ≠ [] → IsBraced braces →
      Pieced pieces rest → Pieced (piece :: pieces) (piece ++ (braces ++ rest))

/-- A word that is put together at an offset from several pieces of code. -/
structure IsJoinedWord (t : Text) (i : Nat) (pieces : List Text) : Prop where
  several : 2 ≤ pieces.length
  before : Text.EndsOutsideWord ((maskNonCode t).take i)
  pieced : Pieced pieces ((maskNonCode t).drop i)

theorem outsideBraces_cons (depth : Nat) (u : CodeUnit) (t : Text) :
    outsideBraces depth (u :: t) =
      if u ≠ unit '\x7b' ∧ u ≠ unit '\x7d' ∧ depth = 0 then u :: outsideBraces depth t
      else outsideBraces (depthBehind depth u) t := by
  rw [outsideBraces, depthBehind]
  split_ifs <;> simp_all

/-- A unit that is left of a declaration stands outside of all braces. -/
theorem exists_cut (h : outsideBraces depth d = x ++ u :: y) :
    ∃ d₁ d₂, d = d₁ ++ u :: d₂ ∧ outsideBraces depth d₁ = x ∧ depthAfter depth d₁ = 0 ∧ outsideBraces 0 d₂ = y := by
  induction d generalizing depth x with
  | nil => cases x <;> cases h
  | cons v d ih =>
    rw [outsideBraces_cons] at h
    split at h
    · rename_i hv
      obtain ⟨hopen, hclose, rfl⟩ := hv
      cases x with
      | nil =>
        obtain ⟨rfl, rfl⟩ := List.cons.inj h
        exact ⟨[], d, rfl, rfl, rfl, rfl⟩
      | cons w x =>
        obtain ⟨rfl, hrest⟩ := List.cons.inj h
        obtain ⟨d₁, d₂, rfl, hx, hdepth, hy⟩ := ih hrest
        have hbehind := depthBehind_of_ne hopen hclose 0
        refine ⟨v :: d₁, d₂, rfl, ?_, ?_, hy⟩
        · rw [outsideBraces_cons, if_pos ⟨hopen, hclose, rfl⟩, hx]
        · rw [depthAfter, List.foldl_cons, hbehind, ← depthAfter, hdepth]
    · rename_i hv
      obtain ⟨d₁, d₂, rfl, hx, hdepth, hy⟩ := ih h
      refine ⟨v :: d₁, d₂, rfl, ?_, hdepth, hy⟩
      rw [outsideBraces_cons, if_neg hv, hx]

theorem outsideBraces_concat (depth : Nat) (d : Text) (u : CodeUnit) :
    outsideBraces depth (d ++ [u]) = outsideBraces depth d ++ outsideBraces (depthAfter depth d) [u] := by
  induction d generalizing depth with
  | nil => rfl
  | cons v d ih =>
    rw [List.cons_append, outsideBraces_cons, outsideBraces_cons, depthAfter, List.foldl_cons, ← depthAfter]
    split
    · rename_i hv
      obtain ⟨hopen, hclose, rfl⟩ := hv
      have hbehind := depthBehind_of_ne hopen hclose 0
      rw [ih, hbehind, List.cons_append]
    · exact ih _

/-- Where no word ends what is left of a part of a declaration, none ends the part itself. -/
theorem endsOutsideWord_of_outsideBraces (hdepth : depthAfter 0 d = 0)
    (h : Text.EndsOutsideWord (outsideBraces 0 d)) : d.EndsOutsideWord := by
  obtain rfl | ⟨d, v, rfl⟩ := List.eq_nil_or_concat d
  · exact nofun
  · rw [List.concat_eq_append] at *
    intro u hu
    obtain rfl : v = u := by rwa [List.getLast?_concat, Option.mem_some_iff] at hu
    by_cases hopen : v = unit '\x7b'
    · rw [hopen]; rfl
    · by_cases hclose : v = unit '\x7d'
      · rw [hclose]; rfl
      · -- Any other unit leaves the depth as it is, so here it stands outside and is left over.
        have hbehind : depthAfter 0 d = 0 := by
          rwa [depthAfter, List.foldl_concat, depthBehind_of_ne hopen hclose] at hdepth
        rw [outsideBraces_concat, hbehind, outsideBraces_cons, if_pos ⟨hopen, hclose, rfl⟩, outsideBraces] at h
        exact h v List.getLast?_concat

/-! ## Words that are left of a declaration -/

/-- The first piece goes on with a unit right before it. -/
theorem Pieced.cons {pieces : List Text} (h : Pieced pieces t) (u : CodeUnit) :
    ∃ pieces', pieces'.flatten = u :: pieces.flatten ∧ Pieced pieces' (u :: t) := by
  cases h with
  | last piece _ hrest => exact ⟨[u :: piece], rfl, Pieced.last (u :: piece) (List.cons_ne_nil u piece) hrest⟩
  | next piece _ hbraces hpieces =>
    exact ⟨(u :: piece) :: _, rfl, Pieced.next (u :: piece) (List.cons_ne_nil u piece) hbraces hpieces⟩

theorem Pieced.ne_nil {pieces : List Text} (h : Pieced pieces t) : pieces ≠ [] := by
  cases h with
  | last piece => exact List.cons_ne_nil piece []
  | next piece => exact List.cons_ne_nil piece _

/-- A word behind `u` in what is left of a declaration is made of pieces of the declaration. -/
theorem exists_pieced (hword : Text.IsRun (u :: w)) (hy : Text.startsInWord y = false)
    (h : outsideBraces 0 d = w ++ y) (rest : Text) :
    ∃ pieces, pieces.flatten = u :: w ∧ Pieced pieces (u :: (d ++ unit ';' :: rest)) := by
  induction w generalizing u d with
  | nil =>
    refine ⟨[[u]], rfl, Pieced.last [u] (List.cons_ne_nil u []) ?_⟩
    cases d with
    | nil => rfl
    | cons v d =>
      rw [List.nil_append, outsideBraces_cons] at h
      split at h
      · rwa [← h] at hy
      · rename_i hv
        by_cases hopen : v = unit '\x7b'
        · rw [hopen]; rfl
        · by_cases hclose : v = unit '\x7d'
          · rw [hclose]; rfl
          · exact absurd ⟨hopen, hclose, rfl⟩ hv
  | cons v w ih =>
    obtain ⟨d₁, d₂, rfl, hnone, hdepth, hrest⟩ := exists_cut (x := []) h
    have hword' : Text.IsRun (v :: w) := fun x hx => hword x (List.mem_cons_of_mem u hx)
    obtain ⟨pieces, hflatten, hpieced⟩ := ih hword' hrest
    by_cases hd : d₁ = []
    · subst hd
      obtain ⟨pieces', hflatten', hpieced'⟩ := hpieced.cons u
      exact ⟨pieces', by rw [hflatten', hflatten], hpieced'⟩
    · have hbraced : IsBraced d₁ := ⟨hd, hnone, hdepth⟩
      refine ⟨[u] :: pieces, by rw [List.flatten_cons, hflatten, List.singleton_append], ?_⟩
      rw [List.append_assoc]
      exact Pieced.next [u] (List.cons_ne_nil u []) hbraced hpieced

/-- A word that a declaration has without its bodies stands in the code before the end of the declaration, in one
piece or in several. -/
theorem exists_word_of_outsideBraces {before : Text} (hmask : maskNonCode t = before ++ (d ++ unit ';' :: rest))
    (hstart : Text.startsInWord d = false) (hne : w ≠ []) (hword : w.IsRun) (hx : x.EndsOutsideWord)
    (hy : Text.startsInWord y = false) (h : outsideBraces 0 d = x ++ (w ++ y)) :
    (∃ i, IsCodeWord t i w) ∨ ∃ i pieces, IsJoinedWord t i pieces ∧ pieces.flatten = w := by
  obtain ⟨u, w, rfl⟩ := List.exists_cons_of_ne_nil hne
  obtain ⟨d₁, d₂, rfl, houtside, hdepth, hrest⟩ := exists_cut h
  obtain ⟨pieces, hflatten, hpieced⟩ := exists_pieced hword hy hrest rest
  have hends : Text.EndsOutsideWord (before ++ d₁) := by
    by_cases hd : d₁ = []
    · rw [hd, List.nil_append, Text.startsInWord, hword u List.mem_cons_self] at hstart
      cases hstart
    · exact Text.endsOutsideWord_append (endsOutsideWord_of_outsideBraces hdepth (houtside ▸ hx)) hd before
  have hsplit : maskNonCode t = (before ++ d₁) ++ (u :: (d₂ ++ unit ';' :: rest)) := by
    rw [hmask]
    simp only [List.append_assoc, List.cons_append]
  generalize u :: (d₂ ++ unit ';' :: rest) = behind at hpieced hsplit
  cases hpieced with
  | last piece hpiece hrest =>
    have hflatten : piece = u :: w := by rwa [List.flatten_singleton] at hflatten
    have hat := Text.isWordAt_append (w := piece) hends hrest
    rw [← hsplit] at hat
    exact .inl ⟨_, hflatten ▸ isCodeWord_of_mask hat (hflatten ▸ hword) hpiece⟩
  | next piece hpiece hbraces hpieces =>
    refine .inr ⟨(before ++ d₁).length, _, ⟨?_, ?_, ?_⟩, hflatten⟩
    · exact Nat.succ_le_succ (List.length_pos_iff.mpr hpieces.ne_nil)
    · rwa [hsplit, List.take_left]
    · rw [hsplit, List.drop_left]
      exact Pieced.next piece hpiece hbraces hpieces

/-! ## The name that a declaration introduces -/

theorem exists_of_declaration? (h : declaration? depth t = some d) : ∃ rest, t = d ++ unit ';' :: rest := by
  induction t generalizing depth d with
  | nil => cases h
  | cons u t ih =>
    rw [declaration?] at h
    split at h
    · rename_i hend
      obtain rfl := Option.some.inj h
      exact ⟨t, by rw [hend.1]; rfl⟩
    · obtain ⟨d, hd, rfl⟩ := Option.map_eq_some_iff.mp h
      obtain ⟨rest, rfl⟩ := ih hd
      exact ⟨rest, rfl⟩

theorem trimEnd_append (t : Text) : ∃ blanks, (∀ u ∈ blanks, isBlank u = true) ∧ t = t.trimEnd ++ blanks := by
  refine ⟨(t.reverse.takeWhile isBlank).reverse, fun u hu => ?_, ?_⟩
  · exact List.all_eq_true.mp List.all_takeWhile u (List.mem_reverse.mp hu)
  · rw [Text.trimEnd, ← List.reverse_append, List.takeWhile_append_dropWhile, List.reverse_reverse]

theorem lastNameShape_append (hname : w.isIdentifier = true) (hy : Text.startsInWord y = false)
    (hsuffixes : afterSuffixes false y = some []) (inWord : Bool) :
    lastNameShape inWord (w ++ y) = some ((w ++ y).length, w) := by
  have hidentifier : Text.identifier? (w ++ y) = some (w, y) := Text.identifier?_eq_some_iff.mpr ⟨rfl, hname, hy⟩
  simp only [lastNameShape, hidentifier, hsuffixes, Option.bind_eq_bind, Option.bind_some]
  rfl

/-- The last name of a declaration is read from the first letter of its word on. -/
theorem exists_of_first?_lastNameShape (h : lastNameShape.first? t = some name) :
    ∃ x digits y, t = x ++ ((digits ++ name) ++ y) ∧ (∀ u ∈ digits, isDigit u = true) ∧ name.isIdentifier = true ∧
      x.EndsOutsideWord ∧ Text.startsInWord y = false := by
  obtain ⟨before, rest, rfl, ⟨n, hshape⟩, hfirst⟩ := Shape.exists_of_first? h
  obtain ⟨y, rfl, hname, hy, hsuffixes⟩ := exists_of_lastNameShape hshape
  refine ⟨stem before, trailingWord before, y, ?_, fun u hu => ?_, hname, endsOutsideWord_stem before, hy⟩
  · conv_lhs => rw [← stem_append_trailingWord before]
    simp only [List.append_assoc]
  · -- A letter in front of the name would have been the start of a longer one.
    have hunit : isIdentifierUnit u = true := isRun_trailingWord before u hu
    rw [isIdentifierUnit, Bool.or_eq_true] at hunit
    refine hunit.resolve_left fun hstart => ?_
    obtain ⟨a, b, hsplit⟩ := List.append_of_mem hu
    have hrun : Text.IsRun (b ++ name) := by
      intro v hv
      rcases List.mem_append.mp hv with hv | hv
      · exact isRun_trailingWord before v (hsplit ▸ List.mem_append_right a (List.mem_cons_of_mem u hv))
      · exact Text.isRun_of_isIdentifier hname v hv
    have hlonger : Text.isIdentifier (u :: (b ++ name)) = true := by
      rw [Text.isIdentifier, hstart, List.all_eq_true.mpr hrun]
      rfl
    have hbefore : before = (stem before ++ a) ++ u :: b := by
      rw [List.append_assoc, ← hsplit, stem_append_trailingWord]
    have hfits := lastNameShape_append hlonger hy hsuffixes (Shape.wordEnds false (stem before ++ a))
    rw [List.cons_append, List.append_assoc, ← List.cons_append] at hfits
    cases hfirst _ _ _ _ hbefore (List.cons_ne_nil u b) hfits

/-- The name that a declaration introduces is, with the digits in front of it, a word of what is left without its
bodies. -/
theorem exists_of_introduced? (h : introduced? d = some name) :
    ∃ x digits y, outsideBraces 0 d = x ++ ((digits ++ name) ++ y) ∧ (∀ u ∈ digits, isDigit u = true) ∧
      name.isIdentifier = true ∧ x.EndsOutsideWord ∧ Text.startsInWord y = false := by
  simp only [introduced?] at h
  split at h
  · rename_i hfirst
    obtain rfl := Option.some.inj h
    obtain ⟨before, rest, hsplit, ⟨n, hshape⟩, _⟩ := Shape.exists_of_first? hfirst
    obtain ⟨y, hleads, hname, hy⟩ := exists_of_pointerNameShape hshape
    obtain ⟨read, _, hends, hrest⟩ := hleads.append before
    exact ⟨read, [], y, by rw [hsplit, hrest]; rfl, List.forall_mem_nil _, hname, hends, hy⟩
  · obtain ⟨x, digits, y, hsplit, hdigits, hname, hx, hy⟩ :=
      exists_of_first?_lastNameShape (Option.eq_some_of_filter_eq_some h)
    obtain ⟨blanks, hblanks, houtside⟩ := trimEnd_append (outsideBraces 0 d)
    have hbehind := Text.startsInWord_blanks_append hblanks (show Text.startsInWord [] = false from rfl)
    rw [List.append_nil] at hbehind
    refine ⟨x, digits, y ++ blanks, ?_, hdigits, hname, hx, Text.startsInWord_append hy hbehind⟩
    rw [houtside, hsplit]
    simp only [List.append_assoc]

theorem exists_of_typedefShape {inWord : Bool} {n : Nat} (h : typedefShape inWord t = some (n, ())) :
    t = Text.ofString "typedef" ++ t.drop n ∧ Text.startsInWord (t.drop n) = false := by
  obtain ⟨rest, hafter, heq⟩ := Option.map_eq_some_iff.mp h
  rw [Text.afterWord?] at hafter
  split at hafter
  · cases hafter
  · obtain ⟨htypedef, hrest⟩ := Option.filter_eq_some_iff.mp hafter
    obtain rfl := Text.after?_eq_some_iff.mp htypedef
    obtain ⟨rfl, _⟩ := Prod.mk.inj heq
    have hdrop : (Text.ofString "typedef" ++ rest).drop
        ((Text.ofString "typedef" ++ rest).length - rest.length) = rest := by
      rw [List.length_append, Nat.add_sub_cancel, List.drop_left]
    rw [hdrop]
    exact ⟨rfl, by simpa using hrest⟩

/-! ## Type names as words -/

/-- No stretch of braces stands between two words without a gap on either side. -/
def Seamless (masked : Text) : Prop :=
  ∀ before braces rest, masked = before ++ (braces ++ rest) → IsBraced braces →
    Text.EndsOutsideWord before ∨ Text.startsInWord rest = false

theorem Pieced.startsInWord {pieces : List Text} (h : Pieced pieces t) (hword : Text.IsRun pieces.flatten) :
    Text.startsInWord t = true := by
  cases h with
  | last piece hne => exact Text.startsInWord_of_isRun hne (fun u hu => hword u (List.mem_append_left _ hu)) _
  | next piece hne => exact Text.startsInWord_of_isRun hne (fun u hu => hword u (List.mem_append_left _ hu)) _

theorem IsJoinedWord.not_seamless {i : Nat} {pieces : List Text} (h : IsJoinedWord t i pieces)
    (hword : Text.IsRun pieces.flatten) : ¬Seamless (maskNonCode t) := by
  intro hseamless
  have hseveral := h.several
  have hpieced := h.pieced
  generalize hbehind : (maskNonCode t).drop i = behind at hpieced
  cases hpieced with
  | last piece => exact absurd hseveral (Nat.not_succ_le_self 1)
  | next piece hne hbraces hpieces =>
    rw [List.flatten_cons] at hword
    have hsplit := List.take_append_drop i (maskNonCode t)
    rw [hbehind, ← List.append_assoc] at hsplit
    rcases hseamless _ _ _ hsplit.symm hbraces with hends | hstarts
    · -- The piece before the braces would have to end with another unit than those of words.
      have hlast := hends _ (List.getLast?_append_of_ne_nil _ hne ▸ List.getLast?_eq_some_getLast hne)
      rw [hword _ (List.mem_append_left _ (List.getLast_mem hne))] at hlast
      cases hlast
    · rw [hpieces.startsInWord fun u hu => hword u (List.mem_append_right _ hu)] at hstarts
      cases hstarts

theorem isCodeWord_of_tag {found : Occurrence Text} (h : found ∈ tagShape.occurrences (maskNonCode t)) :
    ∃ i, IsCodeWord t i found.value := by
  obtain ⟨before, rest, hmask, _, _, hshape⟩ := Shape.exists_of_mem_occurrences h
  obtain ⟨behind, hleads, hname, hbehind⟩ := exists_of_tagShape hshape
  obtain ⟨read, _, hends, hrest⟩ := hleads.append before
  have hat := Text.isWordAt_append (w := found.value) hends hbehind
  rw [← hrest, ← hmask] at hat
  exact ⟨_, isCodeWord_of_mask hat (Text.isRun_of_isIdentifier hname) (Text.ne_nil_of_isIdentifier hname)⟩

theorem isRun_digits_append {digits : Text} (hdigits : ∀ u ∈ digits, isDigit u = true)
    (hname : name.isIdentifier = true) : Text.IsRun (digits ++ name) :=
  (Text.isRun_of_isDigit hdigits).append (Text.isRun_of_isIdentifier hname)

theorem word_of_typedefName? {found : Occurrence Unit} (hfound : found ∈ typedefShape.occurrences (maskNonCode t))
    (h : typedefName? (maskNonCode t) found = some name) :
    ∃ digits, (∀ u ∈ digits, isDigit u = true) ∧ ((∃ i, IsCodeWord t i (digits ++ name)) ∨
      ∃ i pieces, IsJoinedWord t i pieces ∧ pieces.flatten = digits ++ name) := by
  obtain ⟨d, hdeclaration, hintroduced⟩ := Option.bind_eq_some_iff.mp h
  obtain ⟨before, rest, hmask, hposition, _, hshape⟩ := Shape.exists_of_mem_occurrences hfound
  obtain ⟨htypedef, hstart⟩ := exists_of_typedefShape hshape
  rw [hmask, hposition, ← List.drop_drop, List.drop_left] at hdeclaration
  obtain ⟨after, hd⟩ := exists_of_declaration? hdeclaration
  obtain ⟨x, digits, y, houtside, hdigits, hname, hx, hy⟩ := exists_of_introduced? hintroduced
  refine ⟨digits, hdigits, ?_⟩
  have hsplit : maskNonCode t = (before ++ Text.ofString "typedef") ++ (d ++ unit ';' :: after) := by
    rw [hmask, htypedef, hd, List.append_assoc]
  have hdstart : Text.startsInWord d = false := by
    rw [hd] at hstart
    cases d with
    | nil => rfl
    | cons u d => exact hstart
  have hne : digits ++ name ≠ [] :=
    List.append_ne_nil_of_right_ne_nil digits (Text.ne_nil_of_isIdentifier hname)
  exact exists_word_of_outsideBraces hsplit hdstart hne (isRun_digits_append hdigits hname) hx hy houtside

/-- A tag is a whole word of the code. So is any type name once the digits in front of it are put back, unless it has
been put together from words on both sides of a stretch of braces; and where no words touch one from both
sides, every name is such a word. -/
theorem typeNames_words (t : Text) :
    (∀ found ∈ tagShape.occurrences (maskNonCode t), ∃ i, IsCodeWord t i found.value) ∧
    (∀ name ∈ typeNames t, ∃ digits, (∀ u ∈ digits, isDigit u = true) ∧
      ((∃ i, IsCodeWord t i (digits ++ name)) ∨
        ∃ i pieces, IsJoinedWord t i pieces ∧ pieces.flatten = digits ++ name)) ∧
    (Seamless (maskNonCode t) → ∀ name ∈ typeNames t,
      ∃ digits, (∀ u ∈ digits, isDigit u = true) ∧ ∃ i, IsCodeWord t i (digits ++ name)) := by
  have hnames : ∀ name ∈ typeNames t, ∃ digits, (∀ u ∈ digits, isDigit u = true) ∧
      ((∃ i, IsCodeWord t i (digits ++ name)) ∨
        ∃ i pieces, IsJoinedWord t i pieces ∧ pieces.flatten = digits ++ name) := by
    intro name hname
    rw [typeNames, List.mem_eraseDups, List.mem_append] at hname
    rcases hname with htag | htypedef
    · obtain ⟨found, hfound, rfl⟩ := List.mem_map.mp htag
      exact ⟨[], List.forall_mem_nil _, .inl (isCodeWord_of_tag hfound)⟩
    · obtain ⟨found, hfound, hname⟩ := List.mem_filterMap.mp htypedef
      exact word_of_typedefName? hfound hname
  refine ⟨fun _ => isCodeWord_of_tag, hnames, fun hseamless name hname => ?_⟩
  obtain ⟨digits, hdigits, hword | ⟨i, pieces, hjoined, hflatten⟩⟩ := hnames name hname
  · exact ⟨digits, hdigits, hword⟩
  · have hrun := isRun_digits_append hdigits (isIdentifier_of_mem_typeNames hname)
    rw [← hflatten] at hrun
    exact absurd hseamless (hjoined.not_seamless hrun)

/-- A tag and a name that touch the body from both sides become one name, which stands nowhere in the text. -/
theorem typeNames_joined :
    let t : Text := "typedef struct Tag{int x;}Name;"
    Text.ofString "TagName" ∈ typeNames t ∧ ∀ i, ¬IsCodeWord t i "TagName" := by
  intro t
  have hnowhere : ∀ i, ¬Text.StandsAt "TagName" t i := Text.indexOf?_eq_none_iff.mp (by decide +kernel)
  exact ⟨by decide +kernel, fun i h => hnowhere i h.word.stands⟩

/-- A gap on one side keeps the words apart; digits are cut off. -/
example : typeNames "typedef struct Tag {int x;}Name; typedef int 3abc;" = Vocabulary.texts ["Tag", "Name", "abc"] := by
  decide +kernel

end CCompletion.Harvest
