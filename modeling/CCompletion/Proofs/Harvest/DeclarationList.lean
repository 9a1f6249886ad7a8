import CCompletion.Proofs.Harvest.Variable
import CCompletion.Proofs.Harvest.VariableTable

/-!
# Declarations of several variables

A declaration is a type and its declarators, the first behind a gap and each other one behind a separator: array
suffixes, an initializer and a comma. The scan comes by all of its names, whatever text it stands in.
-/

namespace CCompletion.Harvest

variable {t masked before behind rest name named type gap blanks body tail separator : Text} {types : List Text}
  {d : Declared} {declarators : List (Text × Text)}

/-! ## Separators -/

/-- Array suffixes, each with the blanks behind it. -/
inductive IsSuffixes : Text → Prop
  | nil : IsSuffixes []
  | next {body blanks rest : Text} : unit ']' ∉ body → (∀ u ∈ blanks, isBlank u = true) → IsSuffixes rest →
      IsSuffixes (unit '[' :: (body ++ unit ']' :: (blanks ++ rest)))

/-- Nothing, or an equals sign and a value. -/
inductive IsInitializer : Text → Prop
  | nil : IsInitializer []
  | value {value : Text} : (∀ u ∈ value, endsInitializer u = false) → IsInitializer (unit '=' :: value)

/-- What stands between two declarators. -/
inductive IsSeparator : Text → Prop
  | mk {blanks suffixes initializer gap : Text} : (∀ u ∈ blanks, isBlank u = true) → IsSuffixes suffixes →
      IsInitializer initializer → (∀ u ∈ gap, isBlankOrStar u = true) →
      IsSeparator (blanks ++ (suffixes ++ (initializer ++ unit ',' :: gap)))

theorem afterSuffixes_blanks (h : ∀ u ∈ blanks, isBlank u = true) (t : Text) :
    afterSuffixes false (blanks ++ t) = afterSuffixes false t := by
  induction blanks with
  | nil => rfl
  | cons u blanks ih =>
    have hu := h u List.mem_cons_self
    have hbracket : u ≠ unit '[' := by rintro rfl; cases hu
    rw [List.cons_append, afterSuffixes, if_neg Bool.false_ne_true, if_neg hbracket, if_pos hu,
      ih fun v hv => h v (List.mem_cons_of_mem u hv)]

theorem afterSuffixes_body (h : unit ']' ∉ body) (t : Text) :
    afterSuffixes true (body ++ unit ']' :: t) = afterSuffixes false t := by
  induction body with
  | nil => rfl
  | cons u body ih =>
    rw [List.mem_cons, not_or] at h
    rw [List.cons_append, afterSuffixes, if_pos rfl, decide_eq_true (Ne.symm h.1), ih h.2]

theorem exists_afterSuffixes (t : Text) : ∃ rest, afterSuffixes false t = some rest := by
  induction t with
  | nil => exact ⟨[], rfl⟩
  | cons u t ih =>
    rw [afterSuffixes, if_neg Bool.false_ne_true]
    split
    · cases afterSuffixes true t with
      | none => exact ⟨_, rfl⟩
      | some rest => exact ⟨_, rfl⟩
    · split
      · exact ih
      · exact ⟨_, rfl⟩

theorem afterSuffixes_suffixes {suffixes : Text} (h : IsSuffixes suffixes) (t : Text) :
    afterSuffixes false (suffixes ++ t) = afterSuffixes false t := by
  induction h with
  | nil => rfl
  | @next body blanks rest hbody hblanks _ ih =>
    have hinside : afterSuffixes true (body ++ unit ']' :: (blanks ++ rest) ++ t) = afterSuffixes false t := by
      rw [List.append_assoc, List.cons_append, afterSuffixes_body hbody, List.append_assoc,
        afterSuffixes_blanks hblanks, ih]
    obtain ⟨behind, hbehind⟩ := exists_afterSuffixes t
    rw [List.cons_append, afterSuffixes, if_neg Bool.false_ne_true, if_pos rfl, hinside, hbehind]
    rfl

/-- Blanks and suffixes are skipped up to an initializer or a comma. -/
theorem skipSuffixes_append {suffixes : Text} (hblanks : ∀ u ∈ blanks, isBlank u = true)
    (hsuffixes : IsSuffixes suffixes) (hrest : afterSuffixes false rest = some rest) :
    skipSuffixes (blanks ++ (suffixes ++ rest)) = rest := by
  rw [skipSuffixes, afterSuffixes_blanks hblanks, afterSuffixes_suffixes hsuffixes, hrest, Option.getD_some]

theorem skipInitializer_append {initializer : Text} (h : IsInitializer initializer) (t : Text) :
    skipInitializer (initializer ++ unit ',' :: t) = unit ',' :: t := by
  cases h with
  | nil => rfl
  | value hvalue =>
    rw [List.cons_append, skipInitializer, if_pos rfl]
    exact Text.dropWhile_append_of_head? (fun u hu => by rw [hvalue u hu]; rfl) (fun u hu => Option.some.inj hu ▸ rfl)

theorem isBlankOrStar_head? (hname : Text.identifier? named = some (name, rest)) :
    ∀ u ∈ named.head?, isBlankOrStar u = false := by
  obtain ⟨rfl, hidentifier, _⟩ := Text.identifier?_eq_some_iff.mp hname
  intro u hu
  exact Text.isBlankOrStar_of_isIdentifierUnit
    (Text.isIdentifierUnit_of_startsInWord (Text.startsInWord_of_isIdentifier hidentifier rest) hu)

/-- The name behind a separator is the next one. -/
theorem next?_separator (h : IsSeparator separator) (hname : Text.identifier? named = some (name, rest)) :
    next? (separator ++ named) = some (name, named) := by
  cases h with
  | @mk blanks suffixes initializer gap hblanks hsuffixes hinitializer hgap =>
    have hend : afterSuffixes false (initializer ++ unit ',' :: (gap ++ named)) =
        some (initializer ++ unit ',' :: (gap ++ named)) := by
      cases hinitializer <;> rfl
    have hskip : skipSuffixes (blanks ++ (suffixes ++ (initializer ++ unit ',' :: gap)) ++ named) =
        initializer ++ unit ',' :: (gap ++ named) := by
      have happend := skipSuffixes_append hblanks hsuffixes hend
      simpa only [List.append_assoc, List.cons_append] using happend
    have hnamed := Text.dropWhile_append_of_head? hgap (isBlankOrStar_head? hname)
    rw [next?, hskip, skipInitializer_append hinitializer, Text.afterUnit?_eq_some_iff.mpr rfl]
    simp only [Option.bind_eq_bind, Option.bind_some, hnamed, hname, Option.pure_def]

theorem startsInWord_separator (h : IsSeparator separator) (t : Text) : Text.startsInWord (separator ++ t) = false := by
  cases h with
  | @mk blanks suffixes initializer gap hblanks hsuffixes hinitializer _ =>
    cases blanks with
    | cons u _ => exact Text.isIdentifierUnit_of_isBlank (hblanks u List.mem_cons_self)
    | nil =>
      cases hsuffixes with
      | next => rfl
      | nil => cases hinitializer <;> rfl

/-! ## The first declarator -/

theorem declarator?_append (hne : gap ≠ []) (hgap : ∀ u ∈ gap, isBlankOrStar u = true)
    (hname : Text.identifier? named = some (name, rest)) (hopens : opensList rest = false) :
    declarator? (gap ++ named) = some (name, named) := by
  simp only [declarator?, Text.afterRun?_append hne hgap (isBlankOrStar_head? hname), hname, Option.bind_eq_bind,
    Option.bind_some, hopens]
  rfl

theorem startsInWord_gap (hne : gap ≠ []) (hgap : ∀ u ∈ gap, isBlankOrStar u = true) (t : Text) :
    Text.startsInWord (gap ++ t) = false := by
  obtain ⟨u, gap, rfl⟩ := List.exists_cons_of_ne_nil hne
  exact Text.isIdentifierUnit_of_isBlankOrStar (hgap u List.mem_cons_self)

/-- A known type with a declarator behind it fits where it starts a word. -/
theorem typedShape_append (htypes : ∀ type ∈ types, type.isIdentifier = true) (htype : type ∈ types) (hne : gap ≠ [])
    (hgap : ∀ u ∈ gap, isBlankOrStar u = true) (hname : Text.identifier? named = some (name, rest))
    (hopens : opensList rest = false) :
    typedShape types false (type ++ (gap ++ named)) = some ((type ++ gap).length, name) := by
  have hrun := Text.isRun_of_isIdentifier (htypes type htype)
  have hbehind := startsInWord_gap hne hgap named
  rw [typedShape_eq htypes, Text.startsInWord_of_isIdentifier (htypes type htype), if_neg Bool.false_ne_true,
    Text.takeWhile_of_isRun hrun hbehind, if_pos htype, declaredBehindWord?, Text.dropWhile_of_isRun hrun hbehind,
    declarator?_append hne hgap hname hopens, Option.map_some, Shape.leaving, ← List.append_assoc, List.length_append, Nat.add_sub_cancel]

/-- What fits before a word ends before it: a type takes no word but its own, and the gap behind it takes none. -/
theorem length_le_of_typedShape {inWord : Bool} {n : Nat} (htypes : ∀ type ∈ types, type.isIdentifier = true)
    (hne : before ≠ []) (hbefore : before.EndsOutsideWord) (hrest : Text.startsInWord rest = true)
    (h : typedShape types inWord (before ++ rest) = some (n, name)) : n ≤ before.length := by
  obtain ⟨type, htype, behind, named, hsplit, hdeclarator, rfl⟩ := exists_of_typedShape h
  obtain ⟨gap, _, _, hgap, rfl, _⟩ := exists_of_declarator? hdeclarator
  rw [hsplit, ← List.append_assoc, List.length_append, Nat.add_sub_cancel]
  obtain ⟨left, _, _, rfl, hbehind⟩ :=
    Text.exists_append_of_isRun hne hbefore (Text.isRun_of_isIdentifier (htypes type htype)) hsplit
  rcases List.append_eq_append_iff.mp hbehind with ⟨more, rfl, _⟩ | ⟨taken, rfl, rfl⟩
  · exact List.IsPrefix.length_le ⟨more, List.append_assoc ..⟩
  · cases taken with
    | nil => rw [List.append_nil]
    | cons u taken =>
      -- The first unit of the word would belong to the gap.
      have hunit : isIdentifierUnit u = true := hrest
      rw [Text.isIdentifierUnit_of_isBlankOrStar (hgap u (List.mem_append_right left List.mem_cons_self))] at hunit
      cases hunit

theorem mem_occurrences_typedShape (htypes : ∀ type ∈ types, type.isIdentifier = true) (htype : type ∈ types)
    (hbefore : before.EndsOutsideWord) (hne : gap ≠ []) (hgap : ∀ u ∈ gap, isBlankOrStar u = true)
    (hname : Text.identifier? named = some (name, rest)) (hopens : opensList rest = false) :
    ⟨before.length, (type ++ gap).length, name⟩ ∈
      (typedShape types).occurrences (before ++ (type ++ (gap ++ named))) := by
  have htype_ne := Text.ne_nil_of_isIdentifier (htypes type htype)
  refine Shape.mem_occurrences hbefore (List.length_pos_iff.mpr (List.append_ne_nil_of_left_ne_nil htype_ne gap))
    (typedShape_append htypes htype hne hgap hname hopens) (List.append_ne_nil_of_left_ne_nil htype_ne _)
    fun _ b b' m x _ hne' hends hshape => ?_
  exact length_le_of_typedShape htypes hne' hends (Text.startsInWord_of_isIdentifier (htypes type htype) _) hshape

/-! ## Declarations -/

/-- A name that can be declared, with what leads to it. -/
structure Declarator where
  lead : Text
  name : Text
  isIdentifier : name.isIdentifier = true
  free : Vocabulary.isReserved name = false

def Declarator.text (x : Declarator) : Text := x.lead ++ x.name

/-- A known type, a first declarator behind a gap, and further ones behind separators. -/
structure Declaration (types : List Text) where
  type : Text
  first : Declarator
  further : List Declarator
  type_mem : type ∈ Vocabulary.builtinTypes ++ types
  gap_ne_nil : first.lead ≠ []
  gap : ∀ u ∈ first.lead, isBlankOrStar u = true
  separators : ∀ x ∈ further, IsSeparator x.lead ∧ ∀ u ∈ x.lead, Region.OpensNothing u

def Declaration.text (declaration : Declaration types) : Text :=
  declaration.type ++ (declaration.first :: declaration.further).flatMap Declarator.text

/-- Behind a name that the scan finds, it finds the one behind a separator. -/
theorem Finds.next (h : Finds masked types d) (hseparator : IsSeparator separator)
    (hbehind : masked.drop (d.position + d.name.length) = separator ++ named)
    (hname : Text.identifier? named = some (name, rest)) (hfree : Vocabulary.isReserved name = false) :
    Finds masked types ⟨name, d.position + d.name.length + separator.length⟩ := by
  obtain ⟨hd, shape, hshape, found, hfound, hreach⟩ := h
  refine ⟨hfree, shape, hshape, found, hfound, hreach.tail ⟨hd, named, ?_, ?_⟩⟩
  · rw [hbehind]
    exact next?_separator hseparator hname
  · rw [hbehind, List.length_append, Nat.add_sub_cancel]

theorem startsInWord_further {further : List Declarator} (h : ∀ x ∈ further, IsSeparator x.lead)
    (htail : Text.startsInWord tail = false) : Text.startsInWord (further.flatMap Declarator.text ++ tail) = false := by
  cases further with
  | nil => exact htail
  | cons x further =>
    rw [List.flatMap_cons, Declarator.text, List.append_assoc, List.append_assoc]
    exact startsInWord_separator (h x List.mem_cons_self) _

/-- From a name that it finds, the scan comes by all further ones of the declaration. -/
theorem Finds.further {front back : List Declarator} {x : Declarator} (h : Finds masked types d)
    (hbehind : masked.drop (d.position + d.name.length) = (front ++ x :: back).flatMap Declarator.text ++ tail)
    (hseparators : ∀ y ∈ front ++ x :: back, IsSeparator y.lead) (htail : Text.startsInWord tail = false) :
    Finds masked types
      ⟨x.name, d.position + d.name.length + (front.flatMap Declarator.text ++ x.lead).length⟩ := by
  -- By induction on the declarators in between; the scan goes on from each to the next.
  induction front generalizing d with
  | nil =>
    rw [List.nil_append, List.flatMap_cons, Declarator.text, List.append_assoc, List.append_assoc] at hbehind
    have hrest := startsInWord_further (fun y hy => hseparators y (List.mem_cons_of_mem x hy)) htail
    exact h.next (hseparators x List.mem_cons_self) hbehind
      (Text.identifier?_eq_some_iff.mpr ⟨rfl, x.isIdentifier, hrest⟩) x.free
  | cons y front ih =>
    rw [List.cons_append, List.flatMap_cons, Declarator.text, List.append_assoc, List.append_assoc] at hbehind
    have hseparators' : ∀ z ∈ front ++ x :: back, IsSeparator z.lead :=
      fun z hz => hseparators z (List.mem_cons_of_mem y hz)
    have hrest := startsInWord_further hseparators' htail
    have hy := h.next (hseparators y List.mem_cons_self) hbehind
      (Text.identifier?_eq_some_iff.mpr ⟨rfl, y.isIdentifier, hrest⟩) y.free
    have hbehind' : masked.drop (d.position + d.name.length + y.lead.length + y.name.length) =
        (front ++ x :: back).flatMap Declarator.text ++ tail := by
      rw [Nat.add_assoc _ y.lead.length, ← List.drop_drop, hbehind, ← List.drop_drop, List.drop_left, List.drop_left]
    have hx := ih hy hbehind' hseparators'
    have hposition : d.position + d.name.length + ((y :: front).flatMap Declarator.text ++ x.lead).length =
        d.position + d.name.length + y.lead.length + y.name.length +
          (front.flatMap Declarator.text ++ x.lead).length := by
      simp only [List.flatMap_cons, Declarator.text, List.length_append]
      omega
    rwa [hposition]

/-- The scan finds the first name of a declaration behind its type. -/
theorem Declaration.finds_first (declaration : Declaration types) (htypes : ∀ type ∈ types, type.isIdentifier = true)
    (hbefore : before.EndsOutsideWord)
    (hopens : opensList (declaration.further.flatMap Declarator.text ++ tail) = false)
    (htail : Text.startsInWord tail = false) :
    Finds (before ++ (declaration.text ++ tail)) types
      ⟨declaration.first.name, before.length + (declaration.type ++ declaration.first.lead).length⟩ := by
  have hrest := startsInWord_further (fun x hx => (declaration.separators x hx).1) htail
  have hfound := mem_occurrences_typedShape (isIdentifier_of_known htypes)
    (List.mem_eraseDups.mpr declaration.type_mem) hbefore declaration.gap_ne_nil declaration.gap
    (Text.identifier?_eq_some_iff.mpr ⟨rfl, declaration.first.isIdentifier, hrest⟩) hopens
  have hsplit : declaration.text ++ tail = declaration.type ++ (declaration.first.lead ++
      (declaration.first.name ++ (declaration.further.flatMap Declarator.text ++ tail))) := by
    simp only [Declaration.text, List.flatMap_cons, Declarator.text, List.append_assoc]
  rw [hsplit]
  exact ⟨declaration.first.free, _, List.mem_cons_self, _, hfound, .refl⟩

/-- The scan finds all names of a declaration. -/
theorem Declaration.finds (declaration : Declaration types) (htypes : ∀ type ∈ types, type.isIdentifier = true)
    (hmasked : masked = before ++ (declaration.text ++ tail)) (hbefore : before.EndsOutsideWord)
    (hopens : opensList (declaration.further.flatMap Declarator.text ++ tail) = false)
    (htail : Text.startsInWord tail = false) {front back : List Declarator} {x : Declarator}
    (hsplit : declaration.first :: declaration.further = front ++ x :: back) :
    Finds masked types
      ⟨x.name, (before ++ (declaration.type ++ (front.flatMap Declarator.text ++ x.lead))).length⟩ := by
  have hfirst := declaration.finds_first htypes hbefore hopens htail
  rw [← hmasked] at hfirst
  cases front with
  | nil =>
    obtain ⟨rfl, _⟩ := List.cons.inj hsplit
    rwa [List.flatMap_nil, List.nil_append, List.length_append]
  | cons y front =>
    obtain ⟨rfl, hfurther⟩ : declaration.first = y ∧ declaration.further = front ++ x :: back := List.cons.inj hsplit
    have hbehind : masked.drop (before.length + (declaration.type ++ declaration.first.lead).length +
        declaration.first.name.length) = declaration.further.flatMap Declarator.text ++ tail := by
      have hlength : before.length + (declaration.type ++ declaration.first.lead).length +
          declaration.first.name.length =
            (before ++ (declaration.type ++ (declaration.first.lead ++ declaration.first.name))).length := by
        simp only [List.length_append]
        omega
      have happend : masked = (before ++ (declaration.type ++ (declaration.first.lead ++ declaration.first.name))) ++
          (declaration.further.flatMap Declarator.text ++ tail) := by
        simp only [hmasked, Declaration.text, List.flatMap_cons, Declarator.text, List.append_assoc]
      rw [hlength, happend, List.drop_left]
    have hseparators : ∀ z ∈ front ++ x :: back, IsSeparator z.lead :=
      fun z hz => (declaration.separators z (hfurther ▸ hz)).1
    rw [hfurther] at hbehind
    have hx := hfirst.further hbehind hseparators htail
    have hposition : (before ++ (declaration.type ++
        ((declaration.first :: front).flatMap Declarator.text ++ x.lead))).length =
          before.length + (declaration.type ++ declaration.first.lead).length + declaration.first.name.length +
            (front.flatMap Declarator.text ++ x.lead).length := by
      simp only [List.flatMap_cons, Declarator.text, List.length_append]
      omega
    rwa [hposition]

/-! ## Declarations in a text -/

theorem Declaration.isIdentifier_type (declaration : Declaration types)
    (htypes : ∀ type ∈ types, type.isIdentifier = true) : declaration.type.isIdentifier = true :=
  isIdentifier_of_known htypes _ (List.mem_eraseDups.mpr declaration.type_mem)

/-- All of a declaration is code that opens nothing else. -/
theorem Declaration.opensNothing (declaration : Declaration types)
    (htypes : ∀ type ∈ types, type.isIdentifier = true) : ∀ u ∈ declaration.text, Region.OpensNothing u := by
  have hword {w : Text} (hw : w.isIdentifier = true) : ∀ u ∈ w, Region.OpensNothing u :=
    fun u hu => Region.opensNothing_of_isIdentifierUnit (Text.isRun_of_isIdentifier hw u hu)
  have hgap : ∀ u ∈ declaration.first.lead, Region.OpensNothing u :=
    fun u hu => Region.opensNothing_of_isBlankOrStar (declaration.gap u hu)
  have hleads : ∀ x ∈ declaration.first :: declaration.further, ∀ u ∈ x.lead, Region.OpensNothing u :=
    List.forall_mem_cons.mpr ⟨hgap, fun x hx => (declaration.separators x hx).2⟩
  intro u hu
  rcases List.mem_append.mp hu with htype | hdeclarator
  · exact hword (declaration.isIdentifier_type htypes) u htype
  · obtain ⟨x, hx, hux⟩ := List.mem_flatMap.mp hdeclarator
    rcases List.mem_append.mp hux with hlead | hname
    · exact hleads x hx u hlead
    · exact hword x.isIdentifier u hname

end CCompletion.Harvest
