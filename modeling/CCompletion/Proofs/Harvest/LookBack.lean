import CCompletion.Proofs.Harvest.Signature

/-!
# Looking back for return types

Only so many units before a name are searched for its return type. As long as the return type and the gap behind it lie
among these, the search sees what a search of the whole text before the name would see. A longer gap hides every
return type.
-/

namespace CCompletion.Harvest

variable {t front before word type gap : Text} {n : Nat}

/-- The blanks and stars that a text ends with. -/
def trailingGap (t : Text) : Text := (t.reverse.takeWhile isBlankOrStar).reverse

/-- The return type that a text ends with, if there is any, and the gap behind it are among the last units. -/
def ReturnTypeWithin (n : Nat) (before : Text) : Prop :=
  ∀ word ∈ returnType? before, word.length + (trailingGap before).length ≤ n

instance (n : Nat) (before : Text) : Decidable (ReturnTypeWithin n before) :=
  inferInstanceAs (Decidable (∀ word ∈ returnType? before, _))

/-! ## Return types by their surroundings -/

theorem trailingGap_append (hword : word.isIdentifier = true) (hgap : ∀ u ∈ gap, isBlankOrStar u = true)
    (front : Text) : trailingGap (front ++ (word ++ gap)) = gap := by
  have hunits : ∀ u ∈ gap.reverse, isBlankOrStar u = true := fun u hu => hgap u (List.mem_reverse.mp hu)
  have hlast := Text.isBlankOrStar_of_mem_getLast? (Text.isRun_of_isIdentifier hword)
    (Text.ne_nil_of_isIdentifier hword) front
  unfold trailingGap
  rw [← List.append_assoc, List.reverse_append, List.takeWhile_append_of_pos hunits,
    takeWhile_reverse_of_getLast? hlast, List.append_nil, List.reverse_reverse]

theorem isBlankOrStar_of_mem_trailingGap {u : CodeUnit} (hu : u ∈ trailingGap t) : isBlankOrStar u = true :=
  List.all_eq_true.mp List.all_takeWhile u (List.mem_reverse.mp hu)

theorem exists_append_trailingGap (t : Text) : ∃ front, t = front ++ trailingGap t := by
  refine ⟨(t.reverse.dropWhile isBlankOrStar).reverse, ?_⟩
  unfold trailingGap
  rw [← List.reverse_append, List.takeWhile_append_dropWhile, List.reverse_reverse]

/-- A return type is an identifier with a gap behind it, and only digits stand between it and the edge of its word. -/
theorem returnType?_eq_some_iff :
    returnType? t = some word ↔ ∃ front digits gap : Text, t = front ++ (digits ++ (word ++ gap)) ∧
      front.EndsOutsideWord ∧ (∀ u ∈ digits, isDigit u = true) ∧ word.isIdentifier = true ∧ gap ≠ [] ∧
      ∀ u ∈ gap, isBlankOrStar u = true := by
  constructor
  · intro h
    obtain ⟨before, gap, rfl, hword, hne, hgap⟩ := exists_of_returnType? h
    have hidentifier := Text.isRun_of_isIdentifier hword
    have hrun : Text.IsRun (trailingWord before ++ word) := (isRun_trailingWord before).append hidentifier
    have hlast := Text.isBlankOrStar_of_mem_getLast? hidentifier (Text.ne_nil_of_isIdentifier hword) before
    -- the whole word loses nothing but what stands before the return type, so that part is digits
    rw [← List.append_assoc, returnType?_append_eq_some_iff hlast hne hgap] at h
    have hwhole : trailingWord (before ++ word) = trailingWord before ++ word := by
      have htrailing := trailingWord_append (endsOutsideWord_stem before) hrun
      rw [← List.append_assoc, stem_append_trailingWord] at htrailing
      exact htrailing
    have hdigits : (trailingWord before).dropWhile isDigit = [] := by
      have hdrop := h.1
      rw [hwhole, List.dropWhile_append] at hdrop
      split at hdrop
      · rename_i hnil
        exact List.isEmpty_iff.mp hnil
      · exact List.append_left_eq_self.mp hdrop
    refine ⟨stem before, trailingWord before, gap, ?_, endsOutsideWord_stem before,
      List.dropWhile_eq_nil_iff.mp hdigits, hword, hne, hgap⟩
    rw [← List.append_assoc (stem before), stem_append_trailingWord]
  · rintro ⟨front, digits, gap, rfl, hfront, hdigits, hword, hne, hgap⟩
    exact returnType?_of_digits hfront hdigits hword hne hgap

/-! ## The last units of a text -/

theorem lastUnits_of_length_le (h : t.length ≤ n) : lastUnits n t = t := by
  unfold lastUnits
  rw [Nat.sub_eq_zero_of_le h, List.drop_zero]

theorem take_append_lastUnits (n : Nat) (t : Text) : t.take (t.length - n) ++ lastUnits n t = t :=
  List.take_append_drop (t.length - n) t

/-- A return type among the last units is the end of one of the whole text. -/
theorem exists_returnType?_of_lastUnits (h : returnType? (lastUnits n t) = some word) :
    ∃ type, returnType? t = some type := by
  obtain ⟨before, gap, hunits, hword, hne, hgap⟩ := exists_of_returnType? h
  obtain ⟨front, digits, type, hsplit, hfront, hdigits, htype⟩ :=
    exists_digits_of_isIdentifier hword (t.take (t.length - n) ++ before)
  refine ⟨type, ?_⟩
  have ht : t = front ++ (digits ++ (type ++ gap)) := by
    have hwhole := take_append_lastUnits n t
    rw [hunits, ← List.append_assoc, ← List.append_assoc, hsplit] at hwhole
    rw [← hwhole]
    simp only [List.append_assoc]
  rw [ht]
  exact returnType?_of_digits hfront hdigits htype hne hgap

/-- Where the return type lies among the last units, they are enough to find it. -/
theorem returnType?_lastUnits (h : ReturnTypeWithin n t) : returnType? (lastUnits n t) = returnType? t := by
  cases hwhole : returnType? t with
  | none =>
    apply Option.eq_none_iff_forall_ne_some.mpr
    intro word hword
    obtain ⟨type, htype⟩ := exists_returnType?_of_lastUnits hword
    rw [hwhole] at htype
    cases htype
  | some word =>
    have hlength := h word hwhole
    obtain ⟨front, digits, gap, rfl, hfront, hdigits, hword, hne, hgap⟩ := returnType?_eq_some_iff.mp hwhole
    rw [← List.append_assoc, trailingGap_append hword hgap, ← List.length_append] at hlength
    -- the cut falls into the digits or before them, and leaves the word as it is
    rw [← List.append_assoc, lastUnits_append hlength, List.drop_append, List.append_assoc]
    apply returnType?_of_digits (endsOutsideWord_drop hfront _) _ hword hne hgap
    intro u hu
    exact hdigits u (List.mem_of_mem_drop hu)

/-- Among units that are all of the gap no return type is found. -/
theorem returnType?_lastUnits_of_le (h : n ≤ (trailingGap t).length) : returnType? (lastUnits n t) = none := by
  obtain ⟨front, hsplit⟩ := exists_append_trailingGap t
  have hlength := congrArg List.length hsplit
  rw [List.length_append] at hlength
  have hunits : ∀ u ∈ lastUnits n t, isBlankOrStar u = true := by
    intro u hu
    unfold lastUnits at hu
    -- the cut leaves nothing of what stands before the gap
    have hcut : front.length ≤ t.length - n := by omega
    have hdrop : (front ++ trailingGap t).drop (t.length - n) =
        (trailingGap t).drop (t.length - n - front.length) := by
      rw [List.drop_append, List.drop_of_length_le hcut, List.nil_append]
    rw [← hsplit] at hdrop
    rw [hdrop] at hu
    exact isBlankOrStar_of_mem_trailingGap (List.mem_of_mem_drop hu)
  apply Option.eq_none_iff_forall_ne_some.mpr
  intro word hreturn
  obtain ⟨before, gap, hlast, hword, -, -⟩ := exists_of_returnType? hreturn
  obtain ⟨u, rest, rfl⟩ := List.exists_cons_of_ne_nil (Text.ne_nil_of_isIdentifier hword)
  have hblank : isBlankOrStar u = true := by
    apply hunits
    rw [hlast]
    simp
  rw [Text.isBlankOrStar_of_isIdentifierUnit (Text.isRun_of_isIdentifier hword u List.mem_cons_self)] at hblank
  cases hblank

/-! ## Function names -/

variable {masked : Text} {found : Occurrence Text}

theorem isFunctionName_congr {m : Nat} (h : returnType? (lastUnits n (masked.take found.position)) =
    returnType? (lastUnits m (masked.take found.position))) :
    isFunctionName n masked found = isFunctionName m masked found := by
  unfold isFunctionName
  rw [h]

/-- No more units stand before a name than the text has. -/
theorem isFunctionName_of_within (h : ReturnTypeWithin n (masked.take found.position)) :
    isFunctionName n masked found = isFunctionName masked.length masked found := by
  apply isFunctionName_congr
  rw [returnType?_lastUnits h, lastUnits_of_length_le]
  rw [List.length_take]
  exact Nat.min_le_right _ _

theorem isFunctionName_of_gap (h : n ≤ (trailingGap (masked.take found.position)).length) :
    isFunctionName n masked found = false := by
  rw [← Bool.not_eq_true, isFunctionName_eq_true_iff, returnType?_lastUnits_of_le h]
  rintro ⟨_, type, htype, _⟩
  cases htype

theorem isFunctionName_iff_of_word (hword : word.isIdentifier = true) (hfront : front.EndsOutsideWord) (hne : gap ≠ [])
    (hgap : ∀ u ∈ gap, isBlankOrStar u = true) (hlength : (word ++ gap).length ≤ n)
    (hbefore : masked.take found.position = front ++ (word ++ gap)) :
    isFunctionName n masked found = true ↔ Vocabulary.isReserved found.value = false ∧ word ∉ statementWords := by
  rw [isFunctionName_eq_true_iff, hbefore, lastUnits_append hlength,
    returnType?_append hword (endsOutsideWord_drop hfront _) hne hgap]
  simp only [Option.some.injEq, exists_eq_left', ← Bool.not_eq_true, List.contains_iff_mem]

/-- Looking back over so many units and no more makes no difference to a name whose return type lies among them with
the gap behind it, or that has none; so where this is true of all names the functions of a text are those that a search
of everything before a name gives. In this reach a name behind a statement word is no function, and one behind any other
word is. Behind a gap that is as long as the reach no name is that of a function. -/
theorem functions_lookBack (t : Text) :
    (∀ found, ReturnTypeWithin lookBack ((maskNonCode t).take found.position) →
      isFunctionName lookBack (maskNonCode t) found = isFunctionName t.length (maskNonCode t) found) ∧
    ((∀ found ∈ signatureShape.occurrences (maskNonCode t),
        ReturnTypeWithin lookBack ((maskNonCode t).take found.position)) →
      functions t = functionsWithin t.length t) ∧
    (∀ (found : Occurrence Text) (front word gap : Text), (maskNonCode t).take found.position = front ++ (word ++ gap) →
      front.EndsOutsideWord → word.isIdentifier = true → gap ≠ [] → (∀ u ∈ gap, isBlankOrStar u = true) →
      (word ++ gap).length ≤ lookBack →
      (isFunctionName lookBack (maskNonCode t) found = true ↔
        Vocabulary.isReserved found.value = false ∧ word ∉ statementWords)) ∧
    ∀ found, lookBack ≤ (trailingGap ((maskNonCode t).take found.position)).length →
      isFunctionName lookBack (maskNonCode t) found = false := by
  have hsame : ∀ found, ReturnTypeWithin lookBack ((maskNonCode t).take found.position) →
      isFunctionName lookBack (maskNonCode t) found = isFunctionName t.length (maskNonCode t) found := by
    intro found hwithin
    rw [isFunctionName_of_within hwithin, length_maskNonCode]
  refine ⟨hsame, fun hall => ?_, ?_, fun found => isFunctionName_of_gap⟩
  · have hfilter : (signatureShape.occurrences (maskNonCode t)).filter (isFunctionName lookBack (maskNonCode t)) =
        (signatureShape.occurrences (maskNonCode t)).filter (isFunctionName t.length (maskNonCode t)) :=
      List.filter_congr fun found hfound => hsame found (hall found hfound)
    unfold functions functionsWithin
    dsimp only
    rw [hfilter]
  · intro found front word gap hbefore hfront hword hne hgap hlength
    exact isFunctionName_iff_of_word hword hfront hne hgap hlength hbefore

/-- A definition, with a call behind a statement word in its body. -/
theorem functions_lookBack_call :
    let t : Text := "int * f(void)\x7b return g(1); \x7d"
    (∀ found ∈ signatureShape.occurrences (maskNonCode t),
      ReturnTypeWithin lookBack ((maskNonCode t).take found.position)) ∧
    functions t = functionsWithin t.length t ∧ functions t = [Text.ofString "f"] := by
  intro t
  have hall : ∀ found ∈ signatureShape.occurrences (maskNonCode t),
      ReturnTypeWithin lookBack ((maskNonCode t).take found.position) := by decide +kernel
  exact ⟨hall, (functions_lookBack t).2.1 hall, by decide +kernel⟩

/-- A gap of so many blanks hides the return type from the search, and a statement word whose first letter is out of
reach is taken for a return type. -/
theorem functions_ne_functionsWithin :
    let far : Text := Text.ofString "int" ++ (List.replicate 256 (unit ' ') ++ Text.ofString "f(void);")
    let cut : Text := Text.ofString "return" ++ (List.replicate 251 (unit ' ') ++ Text.ofString "g(1);")
    (functions far = [] ∧ functionsWithin far.length far = [Text.ofString "f"]) ∧
    functions cut = [Text.ofString "g"] ∧ functionsWithin cut.length cut = [] := by
  decide +kernel

end CCompletion.Harvest
