import CCompletion.Proofs.Harvest.DeclarationList

/-!
# Function names among the declared variables

A parenthesis behind a name marks a function. Behind a type no such name is taken; behind a comma it is taken like any
other name, and the declaration ends with it.
-/

namespace CCompletion.Harvest

variable {t front afterType named name masked before : Text} {types : List Text} {shape : Shape Text} {inWord : Bool}
  {n : Nat} {d d' : Declared}

/-! ## Names in front of a parenthesis -/

theorem opensList_eq_true_iff :
    opensList t = true ↔ ∃ blanks rest, (∀ u ∈ blanks, isBlank u = true) ∧ t = blanks ++ unit '(' :: rest := by
  rw [opensList, decide_eq_true_iff, Text.skipBlanks]
  constructor
  · intro h
    refine ⟨t.takeWhile isBlank, (t.dropWhile isBlank).tail, List.all_eq_true.mp List.all_takeWhile, ?_⟩
    rw [List.cons_head?_tail h, List.takeWhile_append_dropWhile]
  · rintro ⟨blanks, rest, hblanks, rfl⟩
    have hparenthesis : ∀ u ∈ (unit '(' :: rest).head?, isBlank u = false := fun u hu => Option.some.inj hu ▸ rfl
    rw [Text.dropWhile_append_of_head? hblanks hparenthesis]
    rfl

/-- A parenthesis stands behind the name, or behind the blanks that follow it. -/
def Declared.IsFunction (masked : Text) (d : Declared) : Prop :=
  opensList (masked.drop (d.position + d.name.length)) = true

/-- A parenthesis is neither an array suffix nor an initializer nor a comma. -/
theorem next?_of_opensList (h : opensList t = true) : next? t = none := by
  obtain ⟨blanks, rest, hblanks, rfl⟩ := opensList_eq_true_iff.mp h
  have hskip : skipSuffixes (blanks ++ ([] ++ unit '(' :: rest)) = unit '(' :: rest :=
    skipSuffixes_append hblanks .nil rfl
  rw [next?, ← List.nil_append (unit '(' :: rest), hskip]
  rfl

theorem Declared.IsFunction.not_continues (h : d.IsFunction masked) (d' : Declared) : ¬Continues masked d d' := by
  rintro ⟨_, named, hnext, _⟩
  rw [next?_of_opensList h] at hnext
  cases hnext

/-! ## Names behind a type -/

/-- No parenthesis follows the name that a declarator starts with. -/
theorem opensList_of_declarator? (h : declarator? afterType = some (name, named)) (front : Text) :
    opensList ((front ++ afterType).drop ((front ++ afterType).length - named.length + name.length)) = false := by
  obtain ⟨gap, rest, _, _, rfl, hname⟩ := exists_of_declarator? h
  obtain ⟨rfl, _, _⟩ := Text.identifier?_eq_some_iff.mp hname
  have hlength : (front ++ (gap ++ (name ++ rest))).length - (name ++ rest).length = (front ++ gap).length := by
    rw [← List.append_assoc, List.length_append, Nat.add_sub_cancel]
  rw [hlength, ← List.append_assoc, ← List.drop_drop, List.drop_left, List.drop_left]
  simp only [declarator?, Option.bind_eq_bind, Option.bind_eq_some_iff] at h
  obtain ⟨named', _, ⟨name', rest'⟩, hname', hlast⟩ := h
  split at hlast
  · cases hlast
  · rename_i hopens
    obtain ⟨rfl, rfl⟩ := Prod.mk.inj (Option.some.inj hlast)
    rw [hname] at hname'
    obtain ⟨_, rfl⟩ := Prod.mk.inj (Option.some.inj hname')
    rwa [Bool.not_eq_true] at hopens

theorem opensList_of_declarationShape (hshape : shape ∈ declarationShapes types)
    (h : shape inWord t = some (n, name)) : opensList (t.drop (n + name.length)) = false := by
  obtain rfl | rfl := List.mem_pair.mp hshape
  · obtain ⟨type, _, afterType, named, rfl, hdeclarator, rfl⟩ := exists_of_typedShape h
    exact opensList_of_declarator? hdeclarator type
  · simp only [taggedShape, Option.bind_eq_bind, Option.bind_eq_some_iff, Option.pure_def] at h
    obtain ⟨⟨tag, afterType⟩, htagged, ⟨name', named⟩, hdeclarator, hleaving⟩ := h
    obtain ⟨rfl, rfl⟩ := Prod.mk.inj (Option.some.inj hleaving)
    obtain ⟨⟨read, _, _, rfl⟩, _⟩ := exists_of_tagged? htagged
    rw [← List.append_assoc]
    exact opensList_of_declarator? hdeclarator (read ++ tag)

/-- The name behind a type is no function. -/
theorem not_isFunction_of_mem_occurrences (hshape : shape ∈ declarationShapes types) {found : Occurrence Text}
    (h : found ∈ shape.occurrences masked) :
    ¬Declared.IsFunction masked ⟨found.value, found.position + found.length⟩ := by
  obtain ⟨before, rest, rfl, hposition, _, hfit⟩ := Shape.exists_of_mem_occurrences h
  have hopens := opensList_of_declarationShape hshape hfit
  rw [Declared.IsFunction, hposition, Nat.add_assoc, ← List.drop_drop, List.drop_left, hopens]
  exact Bool.false_ne_true

/-! ## Names behind a comma -/

/-- A function that the scan finds stands behind a comma. -/
theorem Finds.exists_continues (h : Finds masked types d) (hfunction : d.IsFunction masked) :
    ∃ d', Finds masked types d' ∧ Continues masked d' d := by
  obtain ⟨_, shape, hshape, found, hfound, hreach⟩ := h
  obtain rfl | ⟨d', hreach', hlast⟩ := hreach.cases_tail
  · exact absurd hfunction (not_isFunction_of_mem_occurrences hshape hfound)
  · exact ⟨d', ⟨hlast.1, shape, hshape, found, hfound, hreach'⟩, hlast⟩

theorem mem_declaredVariables_iff :
    d ∈ declaredVariables before types ↔ IsGreatest (declaredPositions before types d.name) d.position := by
  refine ⟨isGreatest_of_mem_declaredVariables, fun h => ?_⟩
  obtain ⟨entry, hentry, hname⟩ := name_mem_declaredVariables_iff.mpr ⟨_, h.1⟩
  have hgreatest := isGreatest_of_mem_declaredVariables hentry
  rw [hname] at hgreatest
  rwa [← show entry = d from congrArg₂ Declared.mk hname (hgreatest.unique h)]

/-- No name behind a type is that of a function. A function is among the declared variables exactly when the scan comes
by it behind a comma and by its name nowhere further on; nothing else of its declaration is found. -/
theorem declaredVariables_functions (t : Text) (k : Nat) (types : List Text) :
    (∀ shape ∈ declarationShapes types, ∀ found ∈ shape.occurrences (maskNonCode (t.take k)),
      ¬Declared.IsFunction (maskNonCode (t.take k)) ⟨found.value, found.position + found.length⟩) ∧
    ∀ d : Declared, d.IsFunction (maskNonCode (t.take k)) →
      (d ∈ declaredVariables (t.take k) types ↔
        Vocabulary.isReserved d.name = false ∧
        (∃ d', Finds (maskNonCode (t.take k)) types d' ∧ Continues (maskNonCode (t.take k)) d' d) ∧
        ∀ p ∈ declaredPositions (t.take k) types d.name, p ≤ d.position) ∧
      ∀ d', ¬Continues (maskNonCode (t.take k)) d d' := by
  refine ⟨fun shape hshape found => not_isFunction_of_mem_occurrences hshape,
    fun d hfunction => ⟨?_, hfunction.not_continues⟩⟩
  rw [mem_declaredVariables_iff]
  constructor
  · intro h
    have hfinds : Finds (maskNonCode (t.take k)) types d := h.1
    exact ⟨hfinds.1, hfinds.exists_continues hfunction, h.2⟩
  · rintro ⟨hfree, ⟨d', ⟨_, shape, hshape, found, hfound, hreach⟩, hcontinues⟩, hlast⟩
    exact ⟨⟨hfree, shape, hshape, found, hfound, hreach.tail hcontinues⟩, hlast⟩

/-- A function behind a comma is taken for a variable. -/
theorem function_mem_declaredVariables :
    let t : Text := "int a, f(int);"
    ⟨"f", 7⟩ ∈ declaredVariables (t.take 14) [] ∧ Declared.IsFunction (maskNonCode (t.take 14)) ⟨"f", 7⟩ := by
  intro t
  have hfound : declarations (maskNonCode (t.take 14)) (typedShape (Vocabulary.builtinTypes ++ []).eraseDups) ++
      declarations (maskNonCode (t.take 14)) taggedShape = [⟨"a", 4⟩, ⟨"f", 7⟩] := by decide +kernel
  refine ⟨?_, by unfold Declared.IsFunction; decide +kernel⟩
  rw [declaredVariables, hfound, List.mergeSort_of_pairwise (by decide)]
  decide +kernel

end CCompletion.Harvest
