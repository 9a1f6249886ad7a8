import CCompletion.Proofs.Harvest.DeclarationList
import CCompletion.Proofs.Harvest.TypeName
import Mathlib.Data.Bool.AllAny
import Mathlib.Data.List.TakeWhile

/-!
# Type definitions

A type definition gives a name to a tagged type with a body. However deep the body is, the declaration is read up to the
semicolon behind it, and of the body nothing is left; so the name is the last word of what is. The keyword of a tagged
type that starts earlier is no `typedef`, and would have to find its tag and its body before the definition.
-/

namespace CCompletion.Harvest

variable {t d w b before behind rest name body gap blanks keyword : Text} {u v : CodeUnit} {depth : Nat}

/-! ## Units around a body -/

/-- A unit of words and of the gaps between them. -/
def IsPlainUnit (u : CodeUnit) : Prop := isIdentifierUnit u = true ∨ isBlankOrStar u = true

theorem IsPlainUnit.ne (h : IsPlainUnit u) (hv : isIdentifierUnit v = false) (hv' : isBlankOrStar v = false) : u ≠ v := by
  rintro rfl
  rcases h with h | h
  · rw [hv] at h; cases h
  · rw [hv'] at h; cases h

theorem IsPlainUnit.opensNothing (h : IsPlainUnit u) : Region.OpensNothing u :=
  h.elim Region.opensNothing_of_isIdentifierUnit Region.opensNothing_of_isBlankOrStar

theorem isPlainUnit_of_isIdentifier (h : w.isIdentifier = true) : ∀ u ∈ w, IsPlainUnit u :=
  fun u hu => .inl (Text.isRun_of_isIdentifier h u hu)

theorem isPlainUnit_of_isBlank (h : ∀ u ∈ w, isBlank u = true) : ∀ u ∈ w, IsPlainUnit u :=
  fun u hu => .inr (Text.isBlankOrStar_of_isBlank (h u hu))

theorem notMem_of_isPlainUnit (h : ∀ u ∈ w, IsPlainUnit u) (hv : isIdentifierUnit v = false)
    (hv' : isBlankOrStar v = false) : v ∉ w :=
  fun hmem => (h v hmem).ne hv hv' rfl

/-! ## Bodies -/

/-- Every brace that is opened is closed, and every one that is closed has been opened. -/
inductive IsBalanced : Text → Prop
  | nil : IsBalanced []
  | plain {u : CodeUnit} {rest : Text} : u ≠ unit '\x7b' → u ≠ unit '\x7d' → IsBalanced rest → IsBalanced (u :: rest)
  | braced {inner rest : Text} : IsBalanced inner → IsBalanced rest →
      IsBalanced (unit '\x7b' :: (inner ++ unit '\x7d' :: rest))

theorem IsBalanced.plain_append (hw : ∀ u ∈ w, u ≠ unit '\x7b' ∧ u ≠ unit '\x7d') (hrest : IsBalanced rest) :
    IsBalanced (w ++ rest) := by
  induction w with
  | nil => exact hrest
  | cons u w ih =>
    rw [List.forall_mem_cons] at hw
    exact .plain hw.1.1 hw.1.2 (ih hw.2)

/-- A semicolon ends a declaration only outside of all braces. -/
theorem declaration?_cons (hu : u = unit ';' → depth ≠ 0) (h : declaration? (depthBehind depth u) t = some d) :
    declaration? depth (u :: t) = some (u :: d) := by
  rw [declaration?, if_neg fun hend => hu hend.1 hend.2]
  exact Option.map_eq_some_iff.mpr ⟨d, h, rfl⟩

theorem declaration?_plain (hw : ∀ u ∈ w, IsPlainUnit u) (h : declaration? depth t = some d) :
    declaration? depth (w ++ t) = some (w ++ d) := by
  induction w with
  | nil => exact h
  | cons u w ih =>
    rw [List.forall_mem_cons] at hw
    refine declaration?_cons (fun hu => absurd hu (hw.1.ne rfl rfl)) ?_
    rw [depthBehind_of_ne (hw.1.ne rfl rfl) (hw.1.ne rfl rfl)]
    exact ih hw.2

/-- Inside of braces a balanced text is read over, whatever it holds. -/
theorem declaration?_balanced (hbody : IsBalanced body) (h : declaration? (depth + 1) t = some d) :
    declaration? (depth + 1) (body ++ t) = some (body ++ d) := by
  induction hbody generalizing depth t d with
  | nil => exact h
  | plain hopen hclose _ ih =>
    refine declaration?_cons (fun _ => Nat.succ_ne_zero depth) ?_
    rw [depthBehind_of_ne hopen hclose]
    exact ih h
  | braced _ _ ihinner ihrest =>
    simp only [List.cons_append, List.append_assoc]
    exact declaration?_cons (fun _ => Nat.succ_ne_zero depth)
      (ihinner (declaration?_cons (fun _ => Nat.succ_ne_zero _) (ihrest h)))

/-- Inside of braces nothing is left of a balanced text. -/
theorem outsideBraces_balanced (hbody : IsBalanced body) (depth : Nat) (t : Text) :
    outsideBraces (depth + 1) (body ++ t) = outsideBraces (depth + 1) t := by
  induction hbody generalizing depth t with
  | nil => rfl
  | plain hopen hclose _ ih =>
    rw [List.cons_append, outsideBraces_cons, if_neg fun h => Nat.succ_ne_zero depth h.2.2,
      depthBehind_of_ne hopen hclose, ih]
  | @braced inner rest _ _ ihinner ihrest =>
    have hclosing : outsideBraces (depth + 2) (unit '\x7d' :: (rest ++ t)) = outsideBraces (depth + 1) (rest ++ t) := rfl
    have hopening : outsideBraces (depth + 1) (unit '\x7b' :: (inner ++ unit '\x7d' :: (rest ++ t))) =
        outsideBraces (depth + 2) (inner ++ unit '\x7d' :: (rest ++ t)) := rfl
    rw [List.cons_append, List.append_assoc, List.cons_append, hopening, ihinner, hclosing, ihrest]

theorem outsideBraces_plain (hw : ∀ u ∈ w, IsPlainUnit u) (t : Text) :
    outsideBraces 0 (w ++ t) = w ++ outsideBraces 0 t := by
  induction w with
  | nil => rfl
  | cons u w ih =>
    rw [List.forall_mem_cons] at hw
    rw [List.cons_append, outsideBraces_cons, if_pos ⟨hw.1.ne rfl rfl, hw.1.ne rfl rfl, rfl⟩, ih hw.2, List.cons_append]

/-! ## The last name of a declaration -/

theorem afterSuffixes_of_notMem (h : unit '[' ∉ t) : afterSuffixes false t = some (t.dropWhile isBlank) := by
  induction t with
  | nil => rfl
  | cons u t ih =>
    rw [List.mem_cons, not_or] at h
    rw [afterSuffixes, if_neg Bool.false_ne_true, if_neg (Ne.symm h.1), List.dropWhile_cons, ih h.2]
    split <;> rfl

/-- What is trimmed behind a word are the blanks there. -/
theorem trimEnd_append_blanks (hword : w.IsRun) (hne : w ≠ []) (hblanks : ∀ u ∈ blanks, isBlank u = true) (t : Text) :
    Text.trimEnd ((t ++ w) ++ blanks) = t ++ w := by
  rw [Text.trimEnd, List.reverse_append, Text.dropWhile_append_of_head?, List.reverse_reverse]
  · exact fun u hu => hblanks u (List.mem_reverse.mp hu)
  · intro u hu
    rw [← List.getLast?_eq_head?_reverse] at hu
    exact isBlank_of_isIdentifierUnit (Text.isIdentifierUnit_of_mem_getLast? hword hne hu)

theorem first?_pointerNameShape (h : unit '(' ∉ t) : pointerNameShape.first? t = none := by
  rw [Option.eq_none_iff_forall_ne_some]
  intro name hfirst
  obtain ⟨before, rest, rfl, ⟨n, hshape⟩, _⟩ := Shape.exists_of_first? hfirst
  simp only [pointerNameShape, Option.bind_eq_bind, Option.bind_eq_some_iff] at hshape
  obtain ⟨inside, hinside, _⟩ := hshape
  rw [Text.afterUnit?_eq_some_iff.mp hinside] at h
  exact h (List.mem_append_right before List.mem_cons_self)

/-- Behind words and gaps, a name at the end is the last one. -/
theorem first?_lastNameShape (hbefore : ∀ u ∈ before, IsPlainUnit u) (hends : before.EndsOutsideWord)
    (hname : name.isIdentifier = true) : lastNameShape.first? (before ++ name) = some name := by
  have hbracket : unit '[' ∉ before ++ name := by
    refine notMem_of_isPlainUnit (List.forall_mem_append.mpr ⟨hbefore, isPlainUnit_of_isIdentifier hname⟩) rfl rfl
  have hne := Text.ne_nil_of_isIdentifier hname
  have hfit := lastNameShape_append hname (y := []) rfl rfl (Shape.wordEnds false before)
  rw [List.append_nil] at hfit
  refine Shape.first?_eq_some (List.length_pos_iff.mpr hne) hfit hne fun b b' m x hsplit hne' hshape => ?_
  -- A name that ends earlier has more than suffixes behind it.
  obtain ⟨rest, hrest, hx, _, hsuffixes⟩ := exists_of_lastNameShape hshape
  have hends' : b'.EndsOutsideWord := Text.EndsOutsideWord.of_append (t := b) (hsplit ▸ hends) hne'
  obtain ⟨left, _, _, rfl, rfl⟩ := Text.exists_append_of_isRun hne' hends' (Text.isRun_of_isIdentifier hx) hrest
  have hbracket' : unit '[' ∉ left ++ name := by
    intro hmem
    refine hbracket ?_
    rw [hsplit, List.append_assoc, List.append_assoc]
    exact List.mem_append_right b (List.mem_append_right x hmem)
  rw [afterSuffixes_of_notMem hbracket', Option.some.injEq, List.dropWhile_eq_nil_iff] at hsuffixes
  have hlast := List.getLast_mem hne
  have hblank := hsuffixes _ (List.mem_append_right left hlast)
  rw [isBlank_of_isIdentifierUnit (Text.isRun_of_isIdentifier hname _ hlast)] at hblank
  cases hblank

/-- What is left of a declaration ends with the name that it introduces. -/
theorem introduced?_of_outsideBraces (h : outsideBraces 0 d = before ++ (name ++ blanks))
    (hbefore : ∀ u ∈ before, IsPlainUnit u) (hends : before.EndsOutsideWord) (hname : name.isIdentifier = true)
    (hfree : Vocabulary.isReserved name = false) (hblanks : ∀ u ∈ blanks, isBlank u = true) :
    introduced? d = some name := by
  have hplain : ∀ u ∈ before ++ (name ++ blanks), IsPlainUnit u :=
    List.forall_mem_append.mpr ⟨hbefore, List.forall_mem_append.mpr
      ⟨isPlainUnit_of_isIdentifier hname, isPlainUnit_of_isBlank hblanks⟩⟩
  have htrim : Text.trimEnd (before ++ (name ++ blanks)) = before ++ name := by
    rw [← List.append_assoc]
    exact trimEnd_append_blanks (Text.isRun_of_isIdentifier hname) (Text.ne_nil_of_isIdentifier hname) hblanks before
  rw [introduced?, h, first?_pointerNameShape (notMem_of_isPlainUnit hplain rfl rfl), htrim,
    first?_lastNameShape hbefore hends hname, Option.filter_some, hfree]
  rfl

/-! ## Tagged types -/

theorem isIdentifier_of_mem_tagKeywords (h : keyword ∈ tagKeywords) : keyword.isIdentifier = true := by
  revert keyword
  decide

/-- No keyword of a tagged type ends as `typedef` does. -/
theorem getLast?_of_mem_tagKeywords (h : keyword ∈ tagKeywords) :
    keyword.getLast? ≠ (Text.ofString "typedef").getLast? := by
  revert keyword
  decide

theorem tagShape_append (hkeyword : keyword ∈ tagKeywords) (hne : gap ≠ []) (hgap : ∀ u ∈ gap, isBlank u = true)
    (hname : name.isIdentifier = true) (hblanks : ∀ u ∈ blanks, isBlank u = true) (rest : Text) :
    tagShape false (keyword ++ (gap ++ (name ++ (blanks ++ unit '\x7b' :: rest)))) =
      some ((keyword ++ (gap ++ (name ++ (blanks ++ [unit '\x7b'])))).length, name) := by
  have hbehind : Text.startsInWord (blanks ++ unit '\x7b' :: rest) = false :=
    Text.startsInWord_blanks_append hblanks rfl
  have htagged := tagged?_eq_some_iff.mpr ⟨rfl, keyword, gap, rfl, hkeyword, hne, hgap, hname, hbehind⟩
  have hbody := Text.dropWhile_append_cons hblanks (show isBlank (unit '\x7b') = false from rfl) rest
  simp only [tagShape, htagged, Option.bind_eq_bind, Option.bind_some, Text.skipBlanks, hbody,
    Text.afterUnit?_eq_some_iff.mpr rfl, Option.pure_def, Shape.leaving, List.length_append, List.length_cons,
    List.length_nil]
  congr 2
  omega

/-- The keyword of a tagged type does not end where a `typedef` does, so more than blanks stand between it and the end of
the gap behind the `typedef`. -/
theorem not_isBlank_behind_keyword {left : Text} (hkeyword : keyword ∈ tagKeywords) (hgap : ∀ u ∈ gap, isBlank u = true)
    (hsplit : before ++ Text.ofString "typedef" ++ gap = b ++ (keyword ++ left)) : ¬∀ u ∈ left, isBlank u = true := by
  intro hblank
  have hkeywordRun := Text.isRun_of_isIdentifier (isIdentifier_of_mem_tagKeywords hkeyword)
  have hkeyword_ne := Text.ne_nil_of_isIdentifier (isIdentifier_of_mem_tagKeywords hkeyword)
  have htypedef : Text.IsRun (Text.ofString "typedef") := List.all_eq_true.mp (by decide)
  have hwords := congrArg Text.trimEnd hsplit
  rw [trimEnd_append_blanks htypedef (by decide) hgap, ← List.append_assoc,
    trimEnd_append_blanks hkeywordRun hkeyword_ne hblank] at hwords
  have hlast := congrArg List.getLast? hwords
  rw [List.getLast?_append_of_ne_nil _ (by decide), List.getLast?_append_of_ne_nil _ hkeyword_ne] at hlast
  exact getLast?_of_mem_tagKeywords hkeyword hlast.symm

/-- A tagged type that starts ahead of the gap behind a `typedef` has its body there as well. -/
theorem length_le_of_tagShape {before' : Text} {inWord : Bool} {n : Nat} (hne : before' ≠ [])
    (hends : before'.EndsOutsideWord) (hgap : ∀ u ∈ gap, isBlank u = true)
    (hsplit : before ++ Text.ofString "typedef" ++ gap = b ++ before') (hrest : Text.startsInWord rest = true)
    (h : tagShape inWord (before' ++ rest) = some (n, name)) : n ≤ before'.length := by
  simp only [tagShape, Option.bind_eq_bind, Option.bind_eq_some_iff, Option.pure_def, Option.some.injEq] at h
  obtain ⟨⟨tag, afterTag⟩, htagged, body, hbody, hleaving⟩ := h
  obtain ⟨rfl, _⟩ := Prod.mk.inj hleaving
  obtain ⟨_, keyword, gap', hunits, hkeyword, _, hgap', htag, _⟩ := tagged?_eq_some_iff.mp htagged
  obtain ⟨left, _, hleft, rfl, hfromGap⟩ := Text.exists_append_of_isRun hne hends
    (Text.isRun_of_isIdentifier (isIdentifier_of_mem_tagKeywords hkeyword)) hunits
  have hnotBlank := not_isBlank_behind_keyword hkeyword hgap hsplit
  rcases List.append_eq_append_iff.mp hfromGap with ⟨fromTag, rfl, hfromTag⟩ | ⟨more, rfl, _⟩
  · have htagged_ne : fromTag ≠ [] := by
      rintro rfl
      exact hnotBlank (by rwa [List.append_nil])
    obtain ⟨behindTag, _, _, rfl, rfl⟩ :=
      Text.exists_append_of_isRun htagged_ne (hleft.of_append htagged_ne) (Text.isRun_of_isIdentifier htag) hfromTag.symm
    obtain ⟨v, tail, rfl⟩ : ∃ v tail, rest = v :: tail := by
      cases rest with
      | nil => cases hrest
      | cons v tail => exact ⟨v, tail, rfl⟩
    have hbrace : v ≠ unit '\x7b' := by rintro rfl; cases hrest
    obtain ⟨inside, rfl⟩ := Text.exists_append_of_skipBlanks (isBlank_of_isIdentifierUnit hrest) hbrace
      (Text.afterUnit?_eq_some_iff.mp hbody)
    simp only [List.length_append]
    omega
  · exact absurd (fun u hu => hgap' u (List.mem_append_left more hu)) hnotBlank

/-- The tag of a tagged type behind `typedef` is found. -/
theorem mem_occurrences_tagShape {n : Nat} (before : Text) (hne : gap ≠ []) (hgap : ∀ u ∈ gap, isBlank u = true)
    (hrest : Text.startsInWord rest = true) (hn : 0 < n) (hfit : tagShape false rest = some (n, name)) :
    ⟨(before ++ Text.ofString "typedef" ++ gap).length, n, name⟩ ∈
      tagShape.occurrences ((before ++ Text.ofString "typedef" ++ gap) ++ rest) := by
  have hbefore := Text.endsOutsideWord_append_gap (fun u hu => Text.isBlankOrStar_of_isBlank (hgap u hu)) hne
    (before ++ Text.ofString "typedef")
  have hrest_ne : rest ≠ [] := by rintro rfl; cases hrest
  exact Shape.mem_occurrences hbefore hn hfit hrest_ne fun _ _ _ _ _ hsplit hne' hends hshape =>
    length_le_of_tagShape hne' hends hgap hsplit hrest hshape

/-- A `typedef` between the ends of words is found. -/
theorem mem_occurrences_typedefShape (hbefore : before.EndsOutsideWord) (hrest : Text.startsInWord rest = false) :
    ⟨before.length, 7, ()⟩ ∈ typedefShape.occurrences (before ++ (Text.ofString "typedef" ++ rest)) := by
  have hfit : typedefShape false (Text.ofString "typedef" ++ rest) = some (7, ()) := by
    have hafter : Text.after? "typedef" (Text.ofString "typedef" ++ rest) = some rest := Text.after?_eq_some_iff.mpr rfl
    rw [typedefShape, Text.afterWord?, if_neg Bool.false_ne_true, hafter, Option.filter_some, hrest, Bool.not_false,
      if_pos rfl, Option.map_some, Shape.leaving, List.length_append, Nat.add_sub_cancel]
    rfl
  refine Shape.mem_occurrences hbefore (Nat.succ_pos 6) hfit (List.cons_ne_nil _ _)
    fun _ b b' m x _ hne hends hshape => ?_
  obtain ⟨htypedef, _⟩ := exists_of_typedefShape hshape
  obtain ⟨left, hleft, _, _, hdrop⟩ :=
    Text.exists_append_of_isRun hne hends (List.all_eq_true.mp (by decide)) htypedef
  have hlength := congrArg List.length hdrop
  have hpos := List.length_pos_iff.mpr hleft
  simp only [List.length_drop, List.length_append] at hlength
  omega

/-- The keyword of a tagged type takes up some units. -/
theorem length_of_tagShape {t : Text} {inWord : Bool} {n : Nat} (h : tagShape inWord t = some (n, name)) : 4 ≤ t.length := by
  simp only [tagShape, Option.bind_eq_bind, Option.bind_eq_some_iff] at h
  obtain ⟨⟨tag, afterTag⟩, htagged, _⟩ := h
  obtain ⟨_, keyword, gap, rfl, hkeyword, _⟩ := tagged?_eq_some_iff.mp htagged
  have hlength : ∀ keyword ∈ tagKeywords, 4 ≤ keyword.length := by decide
  rw [List.length_append]
  exact Nat.le_trans (hlength keyword hkeyword) (Nat.le_add_right _ _)

/-! ## Empty structures -/

/-- A structure with nothing in its body. -/
def emptyStruct (name : Text) : Text := Text.ofString "struct " ++ (name ++ Text.ofString "\x7b\x7d;")

theorem maskNonCode_emptyStruct (hname : name.isIdentifier = true) : maskNonCode (emptyStruct name) = emptyStruct name := by
  have hopens : ∀ u ∈ emptyStruct name, Region.OpensNothing u := by
    have hstart : ∀ u ∈ Text.ofString "struct ", Region.OpensNothing u := List.all_iff_forall_prop.mp (by decide +kernel)
    have hend : ∀ u ∈ Text.ofString "\x7b\x7d;", Region.OpensNothing u := List.all_iff_forall_prop.mp (by decide +kernel)
    refine List.forall_mem_append.mpr ⟨hstart, List.forall_mem_append.mpr ⟨fun u hu => ?_, hend⟩⟩
    exact Region.opensNothing_of_isIdentifierUnit (Text.isRun_of_isIdentifier hname u hu)
  have hmask := Region.mask_code_append hopens []
  rwa [List.append_nil, show Region.code.mask [] = [] from rfl, List.append_nil] at hmask

theorem occurrences_tagShape_emptyStruct (hname : name.isIdentifier = true) :
    (tagShape.occurrences (emptyStruct name)).map (·.value) = [name] := by
  have hfit : tagShape false (Text.ofString "struct" ++ (Text.ofString " " ++
      (name ++ ([] ++ unit '\x7b' :: Text.ofString "\x7d;")))) = some (_, name) :=
    tagShape_append (by decide) (by decide) (List.all_eq_true.mp (by decide)) hname (List.forall_mem_nil _) _
  have honly := Shape.occurrences_eq_singleton hfit (Nat.succ_pos _) (List.cons_ne_nil _ _)
    fun inWord before rest hsplit hn => ?_
  · exact congrArg (List.map (·.value)) honly
  -- Only the closing brace and the semicolon are left behind the fit.
  rw [Option.eq_none_iff_forall_ne_some]
  rintro ⟨n, tag⟩ hshape
  have hrest := length_of_tagShape hshape
  have hlength := congrArg List.length hsplit
  have hbehind : (Text.ofString "\x7d;").length = 2 := rfl
  simp only [List.length_append, List.length_cons, List.length_nil, hbehind] at hlength hn
  omega

theorem occurrences_typedefShape_emptyStruct (hfree : unit 'y' ∉ name) :
    typedefShape.occurrences (emptyStruct name) = [] := by
  refine Shape.occurrences_eq_nil fun inWord before rest hsplit => ?_
  rw [Option.eq_none_iff_forall_ne_some]
  rintro ⟨n, _⟩ hshape
  obtain ⟨htypedef, _⟩ := exists_of_typedefShape hshape
  have hmem : unit 'y' ∈ emptyStruct name := by
    rw [hsplit, htypedef]
    exact List.mem_append_right _ (List.mem_append_left _ (by decide))
  simp only [emptyStruct, List.mem_append, hfree, false_or] at hmem
  revert hmem
  decide

/-- An empty structure gives its name and nothing else. -/
theorem typeNames_emptyStruct (hname : name.isIdentifier = true) (hfree : unit 'y' ∉ name) :
    typeNames (emptyStruct name) = [name] := by
  rw [typeNames, maskNonCode_emptyStruct hname, occurrences_tagShape_emptyStruct hname,
    occurrences_typedefShape_emptyStruct hfree]
  rfl

/-! ## Definitions -/

/-- A name that a gap sets apart from its keyword. -/
structure Tag where
  gap : Text
  name : Text
  gap_ne_nil : gap ≠ []
  isBlank_gap : ∀ u ∈ gap, isBlank u = true
  isIdentifier : name.isIdentifier = true

def Tag.text (tag : Tag) : Text := tag.gap ++ tag.name

/-- A tagged type with a body, to which `typedef` gives a name; it can do without the tag. -/
structure TypeDefinition where
  gap : Text
  keyword : Text
  tag : Option Tag
  blanks : Text
  body : Text
  declarator : Declarator
  blanksBehind : Text
  gap_ne_nil : gap ≠ []
  isBlank_gap : ∀ u ∈ gap, isBlank u = true
  keyword_mem : keyword ∈ tagKeywords
  isBlank_blanks : ∀ u ∈ blanks, isBlank u = true
  isBalanced : IsBalanced body
  opensNothing_body : ∀ u ∈ body, Region.OpensNothing u
  lead_ne_nil : declarator.lead ≠ []
  lead : ∀ u ∈ declarator.lead, isBlankOrStar u = true
  isBlank_blanksBehind : ∀ u ∈ blanksBehind, isBlank u = true

namespace TypeDefinition

variable (x : TypeDefinition)

def tagText : Text := x.tag.elim [] Tag.text

/-- What stands between `typedef` and the body. -/
def heading : Text := x.gap ++ (x.keyword ++ (x.tagText ++ x.blanks))

/-- What stands between the body and the semicolon. -/
def naming : Text := x.declarator.lead ++ (x.declarator.name ++ x.blanksBehind)

/-- What stands between `typedef` and the semicolon. -/
def declaration : Text := x.heading ++ unit '\x7b' :: (x.body ++ unit '\x7d' :: x.naming)

def text : Text := Text.ofString "typedef" ++ (x.declaration ++ [unit ';'])

theorem isPlainUnit_tagText : ∀ u ∈ x.tagText, IsPlainUnit u := by
  rw [tagText]
  cases x.tag with
  | none => exact List.forall_mem_nil _
  | some tag =>
    exact List.forall_mem_append.mpr
      ⟨isPlainUnit_of_isBlank tag.isBlank_gap, isPlainUnit_of_isIdentifier tag.isIdentifier⟩

theorem isPlainUnit_heading : ∀ u ∈ x.heading, IsPlainUnit u := by
  simp only [heading, List.forall_mem_append]
  exact ⟨isPlainUnit_of_isBlank x.isBlank_gap,
    isPlainUnit_of_isIdentifier (isIdentifier_of_mem_tagKeywords x.keyword_mem), x.isPlainUnit_tagText,
    isPlainUnit_of_isBlank x.isBlank_blanks⟩

theorem isPlainUnit_naming : ∀ u ∈ x.naming, IsPlainUnit u := by
  simp only [naming, List.forall_mem_append]
  exact ⟨fun u hu => .inr (x.lead u hu), isPlainUnit_of_isIdentifier x.declarator.isIdentifier,
    isPlainUnit_of_isBlank x.isBlank_blanksBehind⟩

theorem opensNothing : ∀ u ∈ x.text, Region.OpensNothing u := by
  simp only [text, declaration, List.forall_mem_append, List.forall_mem_cons]
  have htypedef : ∀ u ∈ Text.ofString "typedef", Region.OpensNothing u := fun u hu =>
    Region.opensNothing_of_isIdentifierUnit (List.all_eq_true.mp (by decide) u hu)
  exact ⟨htypedef, ⟨fun u hu => (x.isPlainUnit_heading u hu).opensNothing, by decide, x.opensNothing_body, by decide,
    fun u hu => (x.isPlainUnit_naming u hu).opensNothing⟩, by decide, List.forall_mem_nil _⟩

/-- The declaration is read up to its own semicolon, over all that its body holds. -/
theorem declaration?_declaration (rest : Text) :
    declaration? 0 (x.declaration ++ unit ';' :: rest) = some x.declaration := by
  have hend : declaration? 0 (unit ';' :: rest) = some [] := rfl
  have hnaming := declaration?_plain x.isPlainUnit_naming hend
  have hclosed : declaration? 1 (unit '\x7d' :: _) = some _ := declaration?_cons (fun _ => Nat.one_ne_zero) hnaming
  have hopened : declaration? 0 (unit '\x7b' :: _) = some _ :=
    declaration?_cons (fun h => by cases h) (declaration?_balanced x.isBalanced hclosed)
  have hheading := declaration?_plain x.isPlainUnit_heading hopened
  simpa only [declaration, List.append_assoc, List.cons_append, List.append_nil] using hheading

theorem outsideBraces_declaration : outsideBraces 0 x.declaration = x.heading ++ x.naming := by
  have hbody : outsideBraces 0 (unit '\x7b' :: (x.body ++ unit '\x7d' :: x.naming)) = outsideBraces 0 x.naming :=
    outsideBraces_balanced x.isBalanced 0 _
  have hnaming := outsideBraces_plain x.isPlainUnit_naming []
  rw [List.append_nil, outsideBraces, List.append_nil] at hnaming
  rw [declaration, outsideBraces_plain x.isPlainUnit_heading, hbody, hnaming]

theorem introduced?_declaration : introduced? x.declaration = some x.declarator.name := by
  have hplain : ∀ u ∈ x.heading ++ x.declarator.lead, IsPlainUnit u :=
    List.forall_mem_append.mpr ⟨x.isPlainUnit_heading, fun u hu => .inr (x.lead u hu)⟩
  have hends := Text.endsOutsideWord_append_gap x.lead x.lead_ne_nil x.heading
  refine introduced?_of_outsideBraces ?_ hplain hends x.declarator.isIdentifier x.declarator.free x.isBlank_blanksBehind
  rw [outsideBraces_declaration, naming, List.append_assoc]

theorem text_append (rest : Text) :
    x.text ++ rest = Text.ofString "typedef" ++ (x.gap ++ (x.keyword ++ (x.tagText ++ (x.blanks ++
      unit '\x7b' :: (x.body ++ unit '\x7d' :: (x.naming ++ unit ';' :: rest)))))) := by
  simp only [text, declaration, heading, List.append_assoc, List.cons_append, List.nil_append]

/-- The name is that of the `typedef`. -/
theorem name_mem (hbefore : before.EndsOutsideWord) (rest : Text) :
    x.declarator.name ∈ (typedefShape.occurrences (before ++ (x.text ++ rest))).filterMap
      (typedefName? (before ++ (x.text ++ rest))) := by
  have htext : x.text ++ rest = Text.ofString "typedef" ++ (x.declaration ++ unit ';' :: rest) := by
    simp only [text, List.append_assoc, List.singleton_append]
  have hgap : Text.startsInWord (x.declaration ++ unit ';' :: rest) = false := by
    obtain ⟨u, gap, hgap⟩ := List.exists_cons_of_ne_nil x.gap_ne_nil
    rw [declaration, heading, hgap]
    exact Text.isIdentifierUnit_of_isBlank (x.isBlank_gap u (hgap ▸ List.mem_cons_self))
  refine List.mem_filterMap.mpr ⟨_, htext ▸ mem_occurrences_typedefShape hbefore hgap, ?_⟩
  have hdrop : (before ++ (x.text ++ rest)).drop (before.length + 7) = x.declaration ++ unit ';' :: rest := by
    rw [← List.drop_drop, List.drop_left, htext]
    rfl
  rw [typedefName?, hdrop, x.declaration?_declaration, Option.bind_some, x.introduced?_declaration]

/-- The tag is that of the tagged type. -/
theorem tag_mem {tag : Tag} (htag : tag ∈ x.tag) (rest : Text) :
    tag.name ∈ (tagShape.occurrences (before ++ (x.text ++ rest))).map (·.value) := by
  have htagText : x.tagText = tag.gap ++ tag.name := by
    rw [tagText, Option.mem_def.mp htag]
    rfl
  have hfit := tagShape_append x.keyword_mem tag.gap_ne_nil tag.isBlank_gap tag.isIdentifier x.isBlank_blanks
    (x.body ++ unit '\x7d' :: (x.naming ++ unit ';' :: rest))
  have hstarts := Text.startsInWord_of_isIdentifier (isIdentifier_of_mem_tagKeywords x.keyword_mem)
    (tag.gap ++ (tag.name ++ (x.blanks ++ unit '\x7b' :: (x.body ++ unit '\x7d' :: (x.naming ++ unit ';' :: rest)))))
  rw [x.text_append, htagText]
  have hlength := List.length_pos_iff.mpr (List.append_ne_nil_of_left_ne_nil
    (Text.ne_nil_of_isIdentifier (isIdentifier_of_mem_tagKeywords x.keyword_mem))
    (tag.gap ++ (tag.name ++ (x.blanks ++ [unit '\x7b']))))
  have hfound := mem_occurrences_tagShape before x.gap_ne_nil x.isBlank_gap hstarts hlength hfit
  simp only [List.append_assoc] at hfound ⊢
  exact List.mem_map.mpr ⟨_, hfound, rfl⟩

end TypeDefinition

/-- A type definition that stands in code gives the name it introduces, and its tag if it has one. -/
theorem typeNames_typeDefinition (x : TypeDefinition) (hcode : Region.code.after before = .code)
    (hbefore : before.EndsOutsideWord) (behind : Text) :
    x.declarator.name ∈ typeNames (before ++ (x.text ++ behind)) ∧
      ∀ tag ∈ x.tag, tag.name ∈ typeNames (before ++ (x.text ++ behind)) := by
  have hmasked := maskNonCode_append (w := x.text) hcode rfl x.opensNothing behind
  have hends := Region.endsOutsideWord_mask .code hbefore
  constructor
  · rw [typeNames, List.mem_eraseDups, hmasked]
    exact List.mem_append_right _ (x.name_mem hends _)
  · intro tag htag
    rw [typeNames, List.mem_eraseDups, hmasked]
    exact List.mem_append_left _ (x.tag_mem htag _)

/-- A structure with another one in its body. -/
def node : TypeDefinition where
  gap := " "
  keyword := "struct"
  tag := some ⟨" ", "Node", by decide, List.all_eq_true.mp (by decide), rfl⟩
  blanks := " "
  body := "struct \x7bint x;\x7d at; "
  declarator := ⟨" *", "List", rfl, by decide +kernel⟩
  blanksBehind := " "
  gap_ne_nil := by decide
  isBlank_gap := List.all_eq_true.mp (by decide)
  keyword_mem := by decide
  isBlank_blanks := List.all_eq_true.mp (by decide)
  isBalanced := by
    have hstruct : ∀ u ∈ Text.ofString "struct ", u ≠ unit '\x7b' ∧ u ≠ unit '\x7d' :=
      List.all_iff_forall_prop.mp (by decide +kernel)
    have hfield : ∀ u ∈ Text.ofString "int x;", u ≠ unit '\x7b' ∧ u ≠ unit '\x7d' :=
      List.all_iff_forall_prop.mp (by decide +kernel)
    have hname : ∀ u ∈ Text.ofString " at; ", u ≠ unit '\x7b' ∧ u ≠ unit '\x7d' :=
      List.all_iff_forall_prop.mp (by decide +kernel)
    have hbody := IsBalanced.plain_append hstruct (.braced (.plain_append hfield .nil) (.plain_append hname .nil))
    exact hbody
  opensNothing_body := List.all_iff_forall_prop.mp (by decide +kernel)
  lead_ne_nil := by decide
  lead := List.all_eq_true.mp (by decide)
  isBlank_blanksBehind := List.all_eq_true.mp (by decide)

/-- The `typedef` that is left unfinished before it has no end, and hides neither name. -/
theorem typeNames_node :
    let t : Text := "typedef union \x7b typedef struct Node \x7bstruct \x7bint x;\x7d at; \x7d *List ;"
    Text.ofString "List" ∈ typeNames t ∧ Text.ofString "Node" ∈ typeNames t := by
  intro t
  have hcode : Region.code.after "typedef union \x7b " = .code := by decide +kernel
  have hbefore : Text.EndsOutsideWord "typedef union \x7b " := Text.endsOutsideWord_concat "typedef union \x7b" rfl
  have htext : Text.ofString "typedef union \x7b " ++ (node.text ++ []) = t := by decide +kernel
  obtain ⟨hname, htag⟩ := typeNames_typeDefinition node hcode hbefore []
  rw [htext] at hname htag
  exact ⟨hname, htag _ rfl⟩

end CCompletion.Harvest
