import CCompletion.Harvest.Variable
import CCompletion.Proofs.Harvest.Name
import CCompletion.Proofs.Source.CodeWord
import Mathlib.Logic.Relation

/-!
# The scan for declared variables

The scan comes by the name behind a type and from there, as long as a name is no reserved word, by the one behind the
next comma. Each stands further on than the one before, so the scan of a declaration ends; and each is a whole word.
-/

namespace CCompletion.Harvest

variable {t named name rest masked before : Text} {types : List Text} {shape : Shape Text} {inWord : Bool}
  {n p : Nat} {d d' : Declared}

/-! ## Declarators -/

theorem exists_of_declarator? (h : declarator? t = some (name, named)) :
    ∃ gap rest, gap ≠ [] ∧ (∀ u ∈ gap, isBlankOrStar u = true) ∧ t = gap ++ named ∧
      Text.identifier? named = some (name, rest) := by
  simp only [declarator?, Option.bind_eq_bind, Option.bind_eq_some_iff] at h
  obtain ⟨named', hafter, ⟨name', rest⟩, hname, hlast⟩ := h
  split at hlast
  · cases hlast
  · obtain ⟨rfl, rfl⟩ := Prod.mk.inj (Option.some.inj hlast)
    obtain ⟨gap, hne, hgap, rfl⟩ := Text.afterRun?_eq_some hafter
    exact ⟨gap, rest, hne, hgap, rfl, hname⟩

theorem leadsTo_of_declarator? (h : declarator? t = some (name, named)) : t.LeadsTo named := by
  obtain ⟨gap, _, hne, hgap, rfl, _⟩ := exists_of_declarator? h
  exact Text.leadsTo_append hne (fun u hu => Text.isIdentifierUnit_of_isBlankOrStar (hgap u hu)) named

theorem suffix_of_afterSuffixes {inside : Bool} (h : afterSuffixes inside t = some rest) : rest <:+ t := by
  fun_induction afterSuffixes inside t with
  | case1 => cases h
  | case2 => exact Option.some.inj h ▸ List.suffix_refl _
  | case3 u t ih => exact (ih h).trans (List.suffix_cons u t)
  | case4 inside t _ ih =>
    rcases Option.or_eq_some_iff.mp (Option.orElse_eq_or ▸ h) with hclosed | ⟨_, hopen⟩
    · exact (ih hclosed).trans (List.suffix_cons _ t)
    · exact Option.some.inj hopen ▸ List.suffix_refl _
  | case5 inside u t _ _ _ ih => exact (ih h).trans (List.suffix_cons u t)
  | case6 => exact Option.some.inj h ▸ List.suffix_refl _

theorem skipSuffixes_suffix (t : Text) : skipSuffixes t <:+ t := by
  rw [skipSuffixes]
  cases h : afterSuffixes false t with
  | none => exact List.nil_suffix
  | some rest => exact suffix_of_afterSuffixes h

theorem skipInitializer_suffix (t : Text) : skipInitializer t <:+ t := by
  cases t with
  | nil => exact List.suffix_refl []
  | cons u rest =>
    rw [skipInitializer]
    split
    · exact (List.dropWhile_suffix _).trans (List.suffix_cons u rest)
    · exact List.suffix_refl _

/-- The next name stands behind a comma, and blanks and stars. -/
theorem exists_of_next? (h : next? t = some (name, named)) :
    t.LeadsTo named ∧ ∃ rest, Text.identifier? named = some (name, rest) := by
  simp only [next?, Option.bind_eq_bind, Option.bind_eq_some_iff, Option.pure_def, Option.some.injEq] at h
  obtain ⟨list, hcomma, ⟨name, rest⟩, hname, heq⟩ := h
  obtain ⟨rfl, rfl⟩ := Prod.mk.inj heq
  obtain ⟨skipped, hskipped⟩ := (skipInitializer_suffix _).trans (skipSuffixes_suffix t)
  rw [Text.afterUnit?_eq_some_iff.mp hcomma] at hskipped
  have hleads : Text.LeadsTo (unit ',' :: list) (list.dropWhile isBlankOrStar) :=
    Text.leadsTo_dropWhile (fun _ => Text.isIdentifierUnit_of_isBlankOrStar) rfl list
  exact ⟨hskipped ▸ hleads.append skipped, rest, hname⟩

/-- A shape that takes a text up to an identifier, and finds it. -/
def IsDeclaring (shape : Shape Text) : Prop :=
  ∀ ⦃inWord t n name⦄, shape inWord t = some (n, name) →
    ∃ named rest, t.LeadsTo named ∧ Text.identifier? named = some (name, rest) ∧ n = t.length - named.length

/-- A typed shape takes one of the types and the gap behind it. -/
theorem exists_of_typedShape (h : typedShape types inWord t = some (n, name)) :
    ∃ type ∈ types, ∃ rest named, t = type ++ rest ∧ declarator? rest = some (name, named) ∧
      n = t.length - named.length := by
  rw [typedShape] at h
  split at h
  · cases h
  · obtain ⟨type, htype, hfit⟩ := List.exists_of_findSome?_eq_some h
    simp only [Option.bind_eq_bind, Option.bind_eq_some_iff] at hfit
    obtain ⟨rest, hafter, hfit⟩ := hfit
    split at hfit
    · obtain ⟨⟨name', named⟩, hdeclarator, hleaving⟩ := Option.bind_eq_some_iff.mp hfit
      obtain ⟨rfl, rfl⟩ := Prod.mk.inj (Option.some.inj hleaving)
      exact ⟨type, htype, rest, named, Text.after?_eq_some_iff.mp hafter, hdeclarator, rfl⟩
    · cases hfit

theorem isDeclaring_typedShape (types : List Text) : IsDeclaring (typedShape types) := by
  intro inWord t n name h
  obtain ⟨type, _, rest, named, rfl, hdeclarator, hlength⟩ := exists_of_typedShape h
  obtain ⟨_, rest', _, _, _, hname⟩ := exists_of_declarator? hdeclarator
  exact ⟨named, rest', (leadsTo_of_declarator? hdeclarator).append type, hname, hlength⟩

theorem isDeclaring_taggedShape : IsDeclaring taggedShape := by
  intro inWord t n name h
  simp only [taggedShape, Option.bind_eq_bind, Option.bind_eq_some_iff, Option.pure_def] at h
  obtain ⟨⟨tag, rest⟩, htagged, ⟨name', named⟩, hdeclarator, hleaving⟩ := h
  obtain ⟨rfl, rfl⟩ := Prod.mk.inj (Option.some.inj hleaving)
  obtain ⟨⟨read, _, _, rfl⟩, _⟩ := exists_of_tagged? htagged
  obtain ⟨_, rest', _, _, _, hname⟩ := exists_of_declarator? hdeclarator
  exact ⟨named, rest', ((leadsTo_of_declarator? hdeclarator).append tag).append read, hname, rfl⟩

/-! ## The names of a declaration -/

/-- From a declared name the scan goes on to the one behind the next comma, unless the name is a reserved word. -/
def Continues (masked : Text) (d d' : Declared) : Prop :=
  Vocabulary.isReserved d.name = false ∧
    ∃ named, next? (masked.drop (d.position + d.name.length)) = some (d'.name, named) ∧
      d'.position = d.position + d.name.length + ((masked.drop (d.position + d.name.length)).length - named.length)

/-- A name as a whole word where it is declared. -/
structure Declared.IsWord (masked : Text) (d : Declared) : Prop where
  word : masked.IsWordAt d.position d.name
  isIdentifier : d.name.isIdentifier = true

theorem Declared.IsWord.le_length (h : d.IsWord masked) : d.position + d.name.length ≤ masked.length :=
  h.word.le_length (Text.ne_nil_of_isIdentifier h.isIdentifier)

theorem Continues.isWord (h : Continues masked d d') : d'.IsWord masked := by
  obtain ⟨_, named, hnext, hposition⟩ := h
  obtain ⟨hleads, rest, hname⟩ := exists_of_next? hnext
  exact ⟨hposition ▸ hleads.isWordAt hname, (Text.identifier?_eq_some_iff.mp hname).2.1⟩

theorem Continues.position_lt (h : Continues masked d d') : d.position < d'.position := by
  obtain ⟨_, named, hnext, hposition⟩ := h
  have hlt := (exists_of_next? hnext).1.length_lt
  omega

/-- As positions only grow, a declaration has only so many names. -/
theorem wellFounded_continues (masked : Text) : WellFounded fun d' d => Continues masked d d' := by
  refine Subrelation.wf (fun {d' d} h => ?_) (measure fun d : Declared => masked.length - d.position).wf
  have hlt := h.position_lt
  have hle := h.isWord.le_length
  show masked.length - d'.position < masked.length - d.position
  omega

theorem isWord_of_mem_occurrences (hshape : IsDeclaring shape) {found : Occurrence Text}
    (h : found ∈ shape.occurrences masked) :
    Declared.IsWord masked ⟨found.value, found.position + found.length⟩ := by
  obtain ⟨before, t, rfl, hposition, _, hfit⟩ := Shape.exists_of_mem_occurrences h
  obtain ⟨named, rest, hleads, hname, hlength⟩ := hshape hfit
  have hdrop : (before ++ t).drop found.position = t := by rw [hposition, List.drop_left]
  have hword := (hdrop.symm ▸ hleads : Text.LeadsTo ((before ++ t).drop found.position) named).isWordAt hname
  rw [hdrop, ← hlength] at hword
  exact ⟨hword, (Text.identifier?_eq_some_iff.mp hname).2.1⟩

theorem isWord_of_reflTransGen (h : Relation.ReflTransGen (Continues masked) d d') (hd : d.IsWord masked) :
    d'.IsWord masked := by
  cases h with
  | refl => exact hd
  | tail _ hlast => exact hlast.isWord

/-- Where the scan goes on is where the text behind the name has the next one. -/
theorem continues_iff (hfree : Vocabulary.isReserved d.name = false)
    (hnext : next? (masked.drop (d.position + d.name.length)) = some (name, named))
    (hle : d.position + d.name.length ≤ masked.length) :
    Continues masked d d' ↔ d' = ⟨name, d.position + ((masked.drop d.position).length - named.length)⟩ := by
  have hlt := (exists_of_next? hnext).1.length_lt
  have hposition : d.position + d.name.length + ((masked.drop (d.position + d.name.length)).length - named.length) =
      d.position + ((masked.drop d.position).length - named.length) := by
    rw [List.length_drop] at hlt ⊢
    rw [List.length_drop]
    omega
  constructor
  · rintro ⟨_, named', hnext', hposition'⟩
    rw [hnext] at hnext'
    obtain ⟨rfl, rfl⟩ := Prod.mk.inj (Option.some.inj hnext')
    exact congrArg (Declared.mk d'.name) (hposition'.trans hposition)
  · rintro rfl
    exact ⟨hfree, named, hnext, hposition.symm⟩

/-- The names of a declaration are those that the scan comes by from its first one, before any reserved word. -/
theorem mem_declaredFrom_iff {fuel : Nat} (hfuel : masked.length ≤ p + fuel)
    (hword : Declared.IsWord masked ⟨name, p⟩) :
    d ∈ declaredFrom fuel p name (masked.drop p) ↔
      Vocabulary.isReserved d.name = false ∧ Relation.ReflTransGen (Continues masked) ⟨name, p⟩ d := by
  have hle : p + name.length ≤ masked.length := hword.le_length
  have hpos : 0 < name.length := List.length_pos_iff.mpr (Text.ne_nil_of_isIdentifier hword.isIdentifier)
  -- Each name stands behind the one before it, so the text is at its end before the fuel is used up.
  induction fuel generalizing p name with
  | zero => omega
  | succ fuel ih =>
    rw [declaredFrom, Relation.ReflTransGen.cases_head_iff]
    split
    · rename_i hreserved
      refine iff_of_false List.not_mem_nil ?_
      rintro ⟨hfree, rfl | ⟨_, hcontinues, _⟩⟩
      · rw [hreserved] at hfree
        cases hfree
      · rw [hcontinues.1] at hreserved
        cases hreserved
    · rename_i hfree
      rw [Bool.not_eq_true] at hfree
      rw [List.mem_cons, List.drop_drop]
      cases hnext : next? (masked.drop (p + name.length)) with
      | none =>
        constructor
        · rintro (rfl | hnil)
          · exact ⟨hfree, .inl rfl⟩
          · cases hnil
        · rintro ⟨_, rfl | ⟨_, ⟨_, _, hfound, _⟩, _⟩⟩
          · exact .inl rfl
          · rw [hnext] at hfound
            cases hfound
      | some found =>
        obtain ⟨name', named⟩ := found
        have hcontinues (d' : Declared) : Continues masked ⟨name, p⟩ d' ↔
            d' = ⟨name', p + ((masked.drop p).length - named.length)⟩ := continues_iff hfree hnext hle
        have hstep := (hcontinues _).mpr rfl
        have hlt : p < p + ((masked.drop p).length - named.length) := hstep.position_lt
        have hleads : Text.LeadsTo (masked.drop p) named := by
          rw [← Text.append_drop_of_standsAt hword.word.stands]
          exact (exists_of_next? hnext).1.append name
        have hnamed : masked.drop (p + ((masked.drop p).length - named.length)) = named := by
          rw [← List.drop_drop, hleads.drop_eq]
        have hrest := ih (by omega) hstep.isWord hstep.isWord.le_length
          (List.length_pos_iff.mpr (Text.ne_nil_of_isIdentifier hstep.isWord.isIdentifier))
        rw [hnamed] at hrest
        simp only [hrest]
        constructor
        · rintro (rfl | ⟨hd, hreach⟩)
          · exact ⟨hfree, .inl rfl⟩
          · exact ⟨hd, .inr ⟨_, hstep, hreach⟩⟩
        · rintro ⟨hd, rfl | ⟨_, hfirst, hreach⟩⟩
          · exact .inl rfl
          · exact .inr ⟨hd, (hcontinues _).mp hfirst ▸ hreach⟩

/-! ## All that the scan finds -/

/-- What declarations start with: a known type or a tagged one, with a declarator behind it. -/
def declarationShapes (types : List Text) : List (Shape Text) :=
  [typedShape (Vocabulary.builtinTypes ++ types).eraseDups, taggedShape]

/-- The scan finds a declaration of a name that is no reserved word: it stands behind a type, or the scan has come
from such a name to it. -/
def Finds (masked : Text) (types : List Text) (d : Declared) : Prop :=
  Vocabulary.isReserved d.name = false ∧
    ∃ shape ∈ declarationShapes types, ∃ found ∈ shape.occurrences masked,
      Relation.ReflTransGen (Continues masked) ⟨found.value, found.position + found.length⟩ d

theorem isDeclaring_of_mem_declarationShapes (h : shape ∈ declarationShapes types) : IsDeclaring shape := by
  obtain rfl | rfl := List.mem_pair.mp h
  · exact isDeclaring_typedShape _
  · exact isDeclaring_taggedShape

theorem Finds.isWord (h : Finds masked types d) : d.IsWord masked := by
  obtain ⟨_, shape, hshape, found, hfound, hreach⟩ := h
  exact isWord_of_reflTransGen hreach (isWord_of_mem_occurrences (isDeclaring_of_mem_declarationShapes hshape) hfound)

theorem mem_declarations_iff (hshape : IsDeclaring shape) :
    d ∈ declarations masked shape ↔
      Vocabulary.isReserved d.name = false ∧ ∃ found ∈ shape.occurrences masked,
        Relation.ReflTransGen (Continues masked) ⟨found.value, found.position + found.length⟩ d := by
  rw [declarations, List.mem_flatMap]
  constructor
  · rintro ⟨found, hfound, hd⟩
    obtain ⟨hfree, hreach⟩ :=
      (mem_declaredFrom_iff (Nat.le_add_left _ _) (isWord_of_mem_occurrences hshape hfound)).mp hd
    exact ⟨hfree, found, hfound, hreach⟩
  · rintro ⟨hfree, found, hfound, hreach⟩
    exact ⟨found, hfound,
      (mem_declaredFrom_iff (Nat.le_add_left _ _) (isWord_of_mem_occurrences hshape hfound)).mpr ⟨hfree, hreach⟩⟩

theorem mem_declarations_iff_finds :
    d ∈ (declarationShapes types).flatMap (declarations masked) ↔ Finds masked types d := by
  rw [List.mem_flatMap, Finds]
  constructor
  · rintro ⟨shape, hshape, hd⟩
    obtain ⟨hfree, hfound⟩ := (mem_declarations_iff (isDeclaring_of_mem_declarationShapes hshape)).mp hd
    exact ⟨hfree, shape, hshape, hfound⟩
  · rintro ⟨hfree, shape, hshape, hfound⟩
    exact ⟨shape, hshape, (mem_declarations_iff (isDeclaring_of_mem_declarationShapes hshape)).mpr ⟨hfree, hfound⟩⟩

end CCompletion.Harvest
