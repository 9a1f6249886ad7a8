import CCompletion.Harvest.Include
import CCompletion.Proofs.Harvest.TypeDefinition
import CCompletion.Proofs.Source.Cut
import CCompletion.Proofs.Text.Lines
import CCompletion.Proofs.Text.Trailing

/-!
# Harvests of a text that is cut

What is declared before a cursor is harvested from the text before it, masked by itself. As a cut changes at most the
last unit of the masked text, from a star to a blank, and no harvest reads a blank or a star at the end, the same is
found as in the part of the whole masked text before the cursor.
-/

namespace CCompletion

namespace Harvest

variable {α : Type} {x : CodeUnit} {read : Text → Option (α × Text)} {shape : Shape α}
  {masked name t : Text}

/-! ## Harvests of masked texts -/

def variablesIn (masked : Text) (knownTypes : List Text) : VariableTable :=
  let found :=
    declarations masked (typedShape (Vocabulary.builtinTypes ++ knownTypes).eraseDups) ++
      declarations masked taggedShape
  (found.mergeSort fun a b => a.position ≤ b.position).foldl (fun table d => table.put d) []

def typeNamesIn (masked : Text) : List Text :=
  ((tagShape.occurrences masked).map (·.value) ++
    (typedefShape.occurrences masked).filterMap (typedefName? masked)).eraseDups

/-- The headers that `t` includes on those lines that are include lines in the masked text. -/
def includesIn (masked t : Text) : List Text :=
  (List.zipWith lineTarget? masked.lines t.lines).reduceOption.eraseDups

theorem declaredVariables_eq (before : Text) (knownTypes : List Text) :
    declaredVariables before knownTypes = variablesIn (maskNonCode before) knownTypes := rfl

theorem typeNames_eq (t : Text) : typeNames t = typeNamesIn (maskNonCode t) := rfl

theorem includes_eq (t : Text) : includes t = includesIn (maskNonCode t) t := rfl

/-! ## Readers of declarations -/

theorem ne_of_isBlankOrStar {u : CodeUnit} (hx : isBlankOrStar x = true) (hu : isBlankOrStar u = false) : x ≠ u := by
  rintro rfl
  rw [hx] at hu
  cases hu

theorem opensList_eq (t : Text) :
    opensList t = ((Text.afterUnit? (unit '(') (t.dropWhile isBlank)).map fun rest => ((), rest)).isSome := by
  rw [opensList, Text.skipBlanks, Option.isSome_map]
  cases t.dropWhile isBlank with
  | nil => rfl
  | cons u rest =>
    rw [Text.afterUnit?, List.head?_cons]
    by_cases hu : u = unit '('
    · rw [if_pos hu, hu]
      rfl
    · rw [if_neg hu, decide_eq_false fun heq => hu (Option.some.inj heq)]
      rfl

theorem opensList_concat (hx : x ≠ unit '(') (t : Text) : opensList (t ++ [x]) = opensList t := by
  have hlist := (Text.leavesLast_afterUnit? hx ()).behindRun isBlank
  rw [opensList_eq, opensList_eq, hlist.concat, Option.isSome_map]

/-- A name that no parenthesis follows, with the text from it on. -/
def nameOutsideList? (named : Text) : Option (Text × Text) := do
  let (name, rest) ← Text.identifier? named
  if opensList rest then none else some (name, named)

theorem leavesLast_nameOutsideList? (hx : isBlankOrStar x = true) : Text.LeavesLast x nameOutsideList? where
  nil := rfl
  concat t := by
    have hname := Text.leavesLast_identifier? (Text.isIdentifierUnit_of_isBlankOrStar hx)
    rw [nameOutsideList?, nameOutsideList?, hname.concat]
    cases Text.identifier? t with
    | none => rfl
    | some found =>
      simp only [Option.map_some, Option.bind_eq_bind, Option.bind_some, opensList_concat (ne_of_isBlankOrStar hx rfl)]
      split
      · rfl
      · rfl

theorem leavesLast_declarator? (hx : isBlankOrStar x = true) : Text.LeavesLast x declarator? :=
  (leavesLast_nameOutsideList? hx).afterRun isBlankOrStar

theorem leavesLast_tagged? (hx : isBlankOrStar x = true) (inWord : Bool) : Text.LeavesLast x (tagged? inWord) := by
  have hword := Text.isIdentifierUnit_of_isBlankOrStar hx
  have htag := (Text.leavesLast_identifier? hword).afterRun isBlank
  cases inWord with
  | true => exact ⟨rfl, fun t => rfl⟩
  | false =>
    refine ⟨rfl, fun t => ?_⟩
    show (Text.afterAny? tagKeywords (t ++ [x])).bind _ = ((Text.afterAny? tagKeywords t).bind _).map _
    have hkeywords : ∀ keyword ∈ tagKeywords, x ∉ keyword := fun keyword hkeyword =>
      (Text.isRun_of_isIdentifier (isIdentifier_of_mem_tagKeywords hkeyword)).notMem hword
    rw [Text.afterAny?_concat hkeywords]
    cases Text.afterAny? tagKeywords t with
    | none => rfl
    | some rest => exact htag.concat rest

/-- A blank behind suffixes is skipped with them. -/
theorem afterSuffixes_concat (hopen : x ≠ unit '[') (hclose : x ≠ unit ']') (inside : Bool) (t : Text) :
    afterSuffixes inside (t ++ [x]) =
      (afterSuffixes inside t).map fun rest => if rest = [] then [x].dropWhile isBlank else rest ++ [x] := by
  fun_induction afterSuffixes inside t with
  | case1 =>
    show afterSuffixes (decide (x ≠ unit ']')) [] = none
    rw [decide_eq_true hclose]
    rfl
  | case2 inside houtside =>
    rw [List.nil_append, afterSuffixes, if_neg houtside, if_neg hopen, Option.map_some, if_pos rfl]
    by_cases hblank : isBlank x = true
    · rw [if_pos hblank, List.dropWhile_cons_of_pos hblank]
      rfl
    · rw [if_neg hblank, List.dropWhile_cons_of_neg hblank]
  | case3 u rest ih => exact ih
  | case4 inside rest houtside ih =>
    rw [List.cons_append, afterSuffixes, if_neg houtside, if_pos rfl, ih]
    cases afterSuffixes true rest with
    | none => rfl
    | some behind => rfl
  | case5 inside u rest houtside hu hblank ih =>
    rw [List.cons_append, afterSuffixes, if_neg houtside, if_neg hu, if_pos hblank, ih]
  | case6 inside u rest houtside hu hblank =>
    rw [List.cons_append, afterSuffixes, if_neg houtside, if_neg hu, if_neg hblank]
    rfl

theorem leavesLast_behindSuffixes (h : Text.LeavesLast x read) (hx : isBlankOrStar x = true) :
    Text.LeavesLast x fun t => read (skipSuffixes t) where
  nil := h.nil
  concat t := by
    obtain ⟨rest, hrest⟩ := exists_afterSuffixes t
    have hopen : x ≠ unit '[' := ne_of_isBlankOrStar hx rfl
    have hclose : x ≠ unit ']' := ne_of_isBlankOrStar hx rfl
    rw [skipSuffixes, skipSuffixes, afterSuffixes_concat hopen hclose, hrest]
    show read (if rest = [] then _ else _) = (read rest).map _
    split
    · rename_i hnil
      rw [hnil]
      exact h.dropWhile_concat isBlank []
    · exact h.concat rest

theorem leavesLast_behindInitializer (h : Text.LeavesLast x read) (hx : x ≠ unit '=') :
    Text.LeavesLast x fun t => read (skipInitializer t) where
  nil := h.nil
  concat t := by
    cases t with
    | nil =>
      rw [List.nil_append, skipInitializer, if_neg hx]
      exact h.concat []
    | cons u t =>
      rw [List.cons_append, skipInitializer, skipInitializer]
      split
      · exact h.dropWhile_concat _ t
      · exact h.concat (u :: t)

/-- A name, with the text from it on. -/
def name? (named : Text) : Option (Text × Text) := do
  let (name, _) ← Text.identifier? named
  return (name, named)

theorem leavesLast_name? (hx : isBlankOrStar x = true) : Text.LeavesLast x name? where
  nil := rfl
  concat t := by
    have hname := Text.leavesLast_identifier? (Text.isIdentifierUnit_of_isBlankOrStar hx)
    rw [name?, name?, hname.concat]
    cases Text.identifier? t with
    | none => rfl
    | some found => rfl

theorem leavesLast_next? (hx : isBlankOrStar x = true) : Text.LeavesLast x next? := by
  have hcomma : x ≠ unit ',' := ne_of_isBlankOrStar hx rfl
  have hlist := ((leavesLast_name? hx).behindRun isBlankOrStar).afterUnit hcomma
  exact leavesLast_behindSuffixes (leavesLast_behindInitializer hlist (ne_of_isBlankOrStar hx rfl)) hx

/-! ## Shapes -/

/-- The shape does not fit an empty text, and whether it fits does not depend on `x` at the end of a text. -/
structure IgnoresLast (x : CodeUnit) (shape : Shape α) : Prop where
  nil (inWord : Bool) : shape inWord [] = none
  concat (inWord : Bool) (t : Text) : shape inWord (t ++ [x]) = shape inWord t

theorem leaving_concat (t : Text) (found : α × Text) :
    Shape.leaving (t ++ [x]) (found.1, found.2 ++ [x]) = Shape.leaving t found := by
  rw [Shape.leaving, List.length_append, List.length_append, Nat.add_sub_add_right]
  rfl

theorem map_leaving_concat (h : Text.LeavesLast x read) (t : Text) :
    (read (t ++ [x])).map (Shape.leaving (t ++ [x])) = (read t).map (Shape.leaving t) := by
  rw [h.concat]
  cases read t with
  | none => rfl
  | some found => exact congrArg some (leaving_concat t found)

/-- A shape that keeps what a reader finds ignores what the reader leaves. -/
theorem ignoresLast_of_leavesLast {read : Bool → Text → Option (α × Text)}
    (h : ∀ inWord, Text.LeavesLast x (read inWord))
    (hshape : ∀ inWord t, shape inWord t = (read inWord t).map (Shape.leaving t)) : IgnoresLast x shape where
  nil inWord := by
    rw [hshape, (h inWord).nil]
    rfl
  concat inWord t := by
    rw [hshape, hshape, map_leaving_concat (h inWord)]

/-- What one type finds where the text starts with it. -/
def typed? (inWord : Bool) (type t : Text) : Option (Text × Text) :=
  (Text.after? type t).bind fun rest => if atWordEdge inWord type rest then declarator? rest else none

theorem leavesLast_typed? (hx : isBlankOrStar x = true) (inWord : Bool) (type : Text) :
    Text.LeavesLast x (typed? inWord type) := by
  have hword := Text.isIdentifierUnit_of_isBlankOrStar hx
  refine Text.LeavesLast.after ⟨ite_self _, fun rest => ?_⟩ type
  rw [atWordEdge, atWordEdge, Text.startsInWord_concat hword]
  split
  · exact (leavesLast_declarator? hx).concat rest
  · rfl

theorem typedShape_eq_findSome? (types : List Text) (inWord : Bool) (t : Text) :
    typedShape types inWord t =
      if inWord = Text.startsInWord t then none
      else types.findSome? fun type => (typed? inWord type t).map (Shape.leaving t) := by
  have htyped (type : Text) : (do
      let rest ← Text.after? type t
      if atWordEdge inWord type rest then return Shape.leaving t (← declarator? rest) else none) =
      (typed? inWord type t).map (Shape.leaving t) := by
    rw [typed?]
    cases Text.after? type t with
    | none => rfl
    | some rest =>
      simp only [Option.bind_eq_bind, Option.bind_some]
      split
      · exact Option.map_eq_bind.symm
      · rfl
  rw [typedShape]
  simp only [htyped]

theorem ignoresLast_typedShape (hx : isBlankOrStar x = true) (types : List Text) :
    IgnoresLast x (typedShape types) where
  nil inWord := by
    rw [typedShape_eq_findSome?]
    split
    · rfl
    · rw [List.findSome?_eq_none_iff]
      intro type _
      rw [(leavesLast_typed? hx inWord type).nil]
      rfl
  concat inWord t := by
    rw [typedShape_eq_findSome?, typedShape_eq_findSome?,
      Text.startsInWord_concat (Text.isIdentifierUnit_of_isBlankOrStar hx)]
    simp only [map_leaving_concat (leavesLast_typed? hx inWord _)]

theorem ignoresLast_taggedShape (hx : isBlankOrStar x = true) : IgnoresLast x taggedShape := by
  have hread (inWord : Bool) := (leavesLast_tagged? hx inWord).bind fun _ => leavesLast_declarator? hx
  refine ignoresLast_of_leavesLast hread ?_
  intro inWord t
  rw [taggedShape]
  cases tagged? inWord t with
  | none => rfl
  | some found => exact Option.map_eq_bind.symm

theorem ignoresLast_tagShape (hx : isBlankOrStar x = true) : IgnoresLast x tagShape := by
  have hbrace : x ≠ unit '\x7b' := ne_of_isBlankOrStar hx rfl
  have hbody (tag : Text) := (Text.leavesLast_afterUnit? hbrace tag).behindRun isBlank
  refine ignoresLast_of_leavesLast (fun inWord => (leavesLast_tagged? hx inWord).bind hbody) ?_
  intro inWord t
  rw [tagShape]
  cases tagged? inWord t with
  | none => rfl
  | some found =>
    show (Text.afterUnit? _ (found.2.dropWhile isBlank)).bind _ = Option.map _ (Option.map _ _)
    rw [Option.map_map]
    exact Option.map_eq_bind.symm

theorem ignoresLast_typedefShape (hx : isBlankOrStar x = true) : IgnoresLast x typedefShape := by
  have hword := Text.isIdentifierUnit_of_isBlankOrStar hx
  have hkeyword : x ∉ Text.ofString "typedef" := (Text.isRun_of_isIdentifier rfl).notMem hword
  refine ignoresLast_of_leavesLast (Text.leavesLast_afterWord? hword hkeyword (by decide)) ?_
  intro inWord t
  rw [typedefShape, Option.map_map]
  rfl

theorem occurrencesFrom_concat (h : IgnoresLast x shape) (inWord : Bool) (position skip : Nat) (t : Text) :
    shape.occurrencesFrom inWord position skip (t ++ [x]) = shape.occurrencesFrom inWord position skip t := by
  induction t generalizing inWord position skip with
  | nil =>
    cases skip with
    | succ k => rfl
    | zero =>
      -- The unit at the end is an offset more, where nothing fits.
      have hnone : shape inWord [x] = none := (h.concat inWord []).trans (h.nil inWord)
      simp only [List.nil_append, Shape.occurrencesFrom, hnone]
  | cons u t ih =>
    cases skip with
    | succ k => exact ih ..
    | zero =>
      have hsame : shape inWord (u :: (t ++ [x])) = shape inWord (u :: t) := h.concat inWord (u :: t)
      simp only [List.cons_append, Shape.occurrencesFrom, hsame, ih]

theorem occurrences_concat (h : IgnoresLast x shape) (t : Text) : shape.occurrences (t ++ [x]) = shape.occurrences t :=
  occurrencesFrom_concat h false 0 0 t

/-! ## Declarations -/

theorem declaration?_concat (hx : x ≠ unit ';') (depth : Nat) (t : Text) :
    declaration? depth (t ++ [x]) = declaration? depth t := by
  induction t generalizing depth with
  | nil =>
    rw [List.nil_append, declaration?, declaration?, if_neg fun h => hx h.1]
    rfl
  | cons u t ih =>
    rw [List.cons_append, declaration?, declaration?]
    simp only [ih]

theorem declaredFrom_concat (hx : isBlankOrStar x = true) (fuel position : Nat) (h : name.length ≤ t.length) :
    declaredFrom fuel position name (t ++ [x]) = declaredFrom fuel position name t := by
  -- Name by name; the text that goes on with the next name is no shorter than that name.
  induction fuel generalizing position name t with
  | zero => rfl
  | succ fuel ih =>
    rw [declaredFrom, declaredFrom, List.drop_append_of_le_length h, (leavesLast_next? hx).concat]
    cases hnext : next? (t.drop name.length) with
    | none => rfl
    | some found =>
      obtain ⟨nextName, rest⟩ := found
      obtain ⟨_, _, hname⟩ := exists_of_next? hnext
      have hlength : nextName.length ≤ rest.length := by
        rw [(Text.identifier?_eq_some_iff.mp hname).1, List.length_append]
        omega
      simp only [Option.map_some, List.length_append, Nat.add_sub_add_right, ih _ hlength]

/-- The fuel apart, the declarations are those of the text without `x`. -/
theorem declarations_concat (hx : isBlankOrStar x = true) {shape : Shape Text} (hshape : IsDeclaring shape)
    (h : IgnoresLast x shape) (masked : Text) :
    declarations (masked ++ [x]) shape = (shape.occurrences masked).flatMap fun found =>
      declaredFrom (masked.length + 1) (found.position + found.length) found.value
        (masked.drop (found.position + found.length)) := by
  rw [declarations, occurrences_concat h]
  refine List.flatMap_congr fun found hfound => ?_
  have hword : found.position + found.length + found.value.length ≤ masked.length :=
    (isWord_of_mem_occurrences hshape hfound).le_length
  have hlength : found.value.length ≤ (masked.drop (found.position + found.length)).length := by
    rw [List.length_drop]
    omega
  show declaredFrom (masked ++ [x]).length _ _ _ = _
  rw [List.length_append, List.drop_append_of_le_length (by omega), declaredFrom_concat hx _ _ hlength]
  rfl

theorem variablesIn_concat {y : CodeUnit} (hx : isBlankOrStar x = true) (hy : isBlankOrStar y = true) (masked : Text)
    (types : List Text) : variablesIn (masked ++ [x]) types = variablesIn (masked ++ [y]) types := by
  unfold variablesIn
  rw [declarations_concat hx (isDeclaring_typedShape _) (ignoresLast_typedShape hx _),
    declarations_concat hy (isDeclaring_typedShape _) (ignoresLast_typedShape hy _),
    declarations_concat hx isDeclaring_taggedShape (ignoresLast_taggedShape hx),
    declarations_concat hy isDeclaring_taggedShape (ignoresLast_taggedShape hy)]

theorem typedefName?_concat (hx : x ≠ unit ';') (masked : Text) (found : Occurrence Unit) :
    typedefName? (masked ++ [x]) found = typedefName? masked found := by
  rw [typedefName?, typedefName?, List.drop_append]
  cases found.position + found.length - masked.length with
  | zero => rw [List.drop_zero, declaration?_concat hx]
  | succ n => rw [List.drop_succ_cons, List.drop_nil, List.append_nil]

theorem typeNamesIn_concat (hx : isBlankOrStar x = true) (masked : Text) :
    typeNamesIn (masked ++ [x]) = typeNamesIn masked := by
  have htypedef : typedefName? (masked ++ [x]) = typedefName? masked :=
    funext (typedefName?_concat (ne_of_isBlankOrStar hx rfl) masked)
  rw [typeNamesIn, occurrences_concat (ignoresLast_tagShape hx), occurrences_concat (ignoresLast_typedefShape hx),
    htypedef, typeNamesIn]

/-! ## Include lines -/

theorem isIncludeLine_concat (hx : isBlankOrStar x = true) (line : Text) :
    Context.isIncludeLine (line ++ [x]) = Context.isIncludeLine line := by
  have hword := Text.isIdentifierUnit_of_isBlankOrStar hx
  have hkeyword : x ∉ Text.ofString "include" := (Text.isRun_of_isIdentifier rfl).notMem hword
  have hhash : x ≠ unit '#' := ne_of_isBlankOrStar hx rfl
  have hinclude := (Text.leavesLast_afterWord? hword hkeyword (by decide) false).behindRun isBlank
  have hdirective := (hinclude.afterUnit hhash).behindRun isBlank
  have hline (line : Text) : Context.isIncludeLine line =
      ((Text.afterUnit? (unit '#') (line.dropWhile isBlank)).bind fun rest =>
        (Text.afterWord? "include" false (rest.dropWhile isBlank)).map fun rest => ((), rest)).isSome := by
    rw [Context.isIncludeLine, Context.directive?, Text.skipBlanks]
    cases Text.afterUnit? (unit '#') (line.dropWhile isBlank) with
    | none => rfl
    | some rest => exact (Option.isSome_map ..).symm
  rw [hline, hline, hdirective.concat, Option.isSome_map]

/-- The unit at the end belongs to the last line. -/
theorem map_isIncludeLine_lines_concat (hx : isBlankOrStar x = true) (hne : x ≠ newline) (masked : Text) :
    (masked ++ [x]).lines.map Context.isIncludeLine = masked.lines.map Context.isIncludeLine := by
  obtain ⟨ls, last, rfl, hls, hlast⟩ := Text.exists_closed_append_eq masked
  have hlast' : newline ∉ last ++ [x] := by
    rw [List.mem_append, List.mem_singleton, not_or]
    exact ⟨hlast, hne.symm⟩
  rw [List.append_assoc, Text.lines_closed_append hls, Text.lines_closed_append hls, Text.lines_of_notMem hlast,
    Text.lines_of_notMem hlast', List.map_append, List.map_append, List.map_singleton, List.map_singleton,
    isIncludeLine_concat hx]

theorem includesIn_concat (hx : isBlankOrStar x = true) (hne : x ≠ newline) (masked t : Text) :
    includesIn (masked ++ [x]) t = includesIn masked t := by
  -- All that counts of the masked text is which of its lines are include lines.
  have hzip (ms : List Text) : List.zipWith lineTarget? ms t.lines =
      List.zipWith (fun isInclude line => if isInclude = true then target? line else none)
        (ms.map Context.isIncludeLine) t.lines := by
    rw [List.zipWith_map_left]
    rfl
  rw [includesIn, includesIn, hzip, hzip, map_isIncludeLine_lines_concat hx hne]

/-! ## What stands before a cursor -/

/-- Masking what stands before a cut gives what stands before the cut in the masked text. Only where the cut falls
between the star and the slash that close a comment, a blank comes to stand in the place of the star. So the
variables, types and headers before the cut are those that the whole text, masked, has there. -/
theorem harvest_take (t : Text) (k : Nat) (types : List Text) :
    (¬CutsClosing t k → maskNonCode (t.take k) = (maskNonCode t).take k) ∧
    (CutsClosing t k → ∃ masked, (maskNonCode t).take k = masked ++ [unit '*'] ∧
      maskNonCode (t.take k) = masked ++ [unit ' ']) ∧
    declaredVariables (t.take k) types = variablesIn ((maskNonCode t).take k) types ∧
    typeNames (t.take k) = typeNamesIn ((maskNonCode t).take k) ∧
    includes (t.take k) = includesIn ((maskNonCode t).take k) (t.take k) := by
  rw [declaredVariables_eq, typeNames_eq, includes_eq]
  by_cases hcut : CutsClosing t k
  · obtain ⟨masked, hbefore, hwhole⟩ := exists_maskNonCode_take hcut
    rw [hbefore, hwhole]
    refine ⟨fun h => absurd hcut h, fun _ => ⟨masked, rfl, rfl⟩, variablesIn_concat rfl rfl masked types, ?_, ?_⟩
    · rw [typeNamesIn_concat rfl, typeNamesIn_concat rfl]
    · rw [includesIn_concat rfl (by decide), includesIn_concat rfl (by decide)]
  · rw [maskNonCode_take hcut]
    exact ⟨fun _ => rfl, fun h => absurd h hcut, rfl, rfl, rfl⟩

/-- A document cut within the opening of a comment, and within its closing. -/
theorem harvest_take_comment :
    let document : Text := "int a; /* int b; */ int c;"
    ¬CutsClosing document 8 ∧ maskNonCode (document.take 8) = (maskNonCode document).take 8 ∧
    CutsClosing document 18 ∧ (∃ masked, (maskNonCode document).take 18 = masked ++ [unit '*'] ∧
      maskNonCode (document.take 18) = masked ++ [unit ' ']) ∧
    declaredVariables (document.take 18) [] = variablesIn ((maskNonCode document).take 18) [] := by
  intro document
  have hopening : ¬CutsClosing document 8 := mt cutsClosing_iff.mp (by decide +kernel)
  have hclosing : CutsClosing document 18 := cutsClosing_iff.mpr (by decide +kernel)
  obtain ⟨hmask, _⟩ := harvest_take document 8 []
  obtain ⟨_, hstar, hvariables, _⟩ := harvest_take document 18 []
  exact ⟨hopening, hmask hopening, hclosing, hstar hclosing, hvariables⟩

end Harvest
end CCompletion
