import CCompletion.Proofs.Harvest.DeclarationList
import CCompletion.Proofs.Text.Order
import Mathlib.Data.Bool.AllAny
import Mathlib.Data.List.TakeWhile

/-!
# Signatures

A signature is a type, a name behind a gap, its parameters, and a brace or semicolon behind them. No shape that fits
earlier in the text reaches into one: it would have to close its own list where the parameters of the name end.
So the name is found wherever the signature stands in code.
-/

namespace CCompletion.Harvest

variable {t rest before behind name word gap parameters : Text} {u : CodeUnit} {nested inWord : Bool} {n : Nat}

/-! ## Parameter lists -/

/-- A unit that neither opens nor closes anything in a list of parameters. -/
def IsParameterUnit (u : CodeUnit) : Prop :=
  u ≠ unit '(' ∧ u ≠ unit ')' ∧ u ≠ unit '\x7b' ∧ u ≠ unit '\x7d' ∧ u ≠ unit ';' ∧ Region.OpensNothing u

instance (u : CodeUnit) : Decidable (IsParameterUnit u) := inferInstanceAs (Decidable (_ ∧ _))

/-- Plain units, and groups of them in parentheses. -/
inductive IsParameters : Text → Prop
  | nil : IsParameters []
  | plain {u : CodeUnit} {rest : Text} : IsParameterUnit u → IsParameters rest → IsParameters (u :: rest)
  | group {inner rest : Text} : (∀ u ∈ inner, IsParameterUnit u) → IsParameters rest →
      IsParameters (unit '(' :: (inner ++ unit ')' :: rest))

theorem isParameterUnit_of_isIdentifierUnit (h : isIdentifierUnit u = true) : IsParameterUnit u := by
  refine ⟨?_, ?_, ?_, ?_, ?_, Region.opensNothing_of_isIdentifierUnit h⟩ <;> rintro rfl <;> cases h

theorem isParameterUnit_of_isBlank (h : isBlank u = true) : IsParameterUnit u := by
  refine ⟨?_, ?_, ?_, ?_, ?_, ?_, ?_, ?_⟩ <;> rintro rfl <;> cases h

theorem afterParameters?_cons (h : IsParameterUnit u) (nested : Bool) (t : Text) :
    afterParameters? nested (u :: t) = afterParameters? nested t := by
  obtain ⟨hopen, hclose, hbrace, hbrace', hsemicolon, _⟩ := h
  rw [afterParameters?, if_neg hclose, if_neg hopen, if_neg (by simp [hbrace, hbrace', hsemicolon])]

theorem afterParameters?_plain (h : ∀ u ∈ word, IsParameterUnit u) (nested : Bool) (t : Text) :
    afterParameters? nested (word ++ t) = afterParameters? nested t := by
  induction word with
  | nil => rfl
  | cons u word ih =>
    rw [List.forall_mem_cons] at h
    rw [List.cons_append, afterParameters?_cons h.1, ih h.2]

/-- A parameter list is read up to the parenthesis that closes it. -/
theorem afterParameters?_append (h : IsParameters parameters) (t : Text) :
    afterParameters? false (parameters ++ unit ')' :: t) = some t := by
  induction h with
  | nil => rfl
  | plain hu _ ih => rw [List.cons_append, afterParameters?_cons hu, ih]
  | @group inner rest hinner _ ih =>
    have hgroup : afterParameters? true (inner ++ unit ')' :: (rest ++ unit ')' :: t)) = some t := by
      rw [afterParameters?_plain hinner]
      exact ih
    rw [List.cons_append, List.append_assoc, List.cons_append]
    exact hgroup

/-- As a group, parameters with a group of their own are refused, and others lead to what follows them. -/
theorem afterParameters?_true_append (h : IsParameters parameters) (ht : afterParameters? false t = none) :
    afterParameters? true (parameters ++ unit ')' :: t) = none := by
  induction h with
  | nil => exact ht
  | plain hu _ ih => rw [List.cons_append, afterParameters?_cons hu, ih]
  | group => rfl

/-- A list that ends before something that closes no list ends before it. -/
theorem exists_append_of_afterParameters? {found : Text} (hrest : ∀ nested, afterParameters? nested rest = none)
    (h : afterParameters? nested (before ++ rest) = some found) : ∃ left, found = left ++ rest := by
  induction before generalizing nested with
  | nil =>
    rw [List.nil_append, hrest nested] at h
    cases h
  | cons u before ih =>
    rw [List.cons_append, afterParameters?] at h
    split at h
    · split at h
      · exact ih h
      · exact ⟨before, (Option.some.inj h).symm⟩
    · split at h
      · split at h
        · cases h
        · exact ih h
      · split at h
        · cases h
        · exact ih h

theorem IsParameters.append {more : Text} (h : IsParameters parameters) (hmore : IsParameters more) :
    IsParameters (parameters ++ more) := by
  induction h with
  | nil => exact hmore
  | plain hu _ ih => exact .plain hu ih
  | group hinner _ ih =>
    rw [List.cons_append, List.append_assoc, List.cons_append]
    exact .group hinner ih

theorem isParameters_of_units (h : ∀ u ∈ word, IsParameterUnit u) : IsParameters word := by
  induction word with
  | nil => exact .nil
  | cons u word ih =>
    rw [List.forall_mem_cons] at h
    exact .plain h.1 (ih h.2)

/-! ## Signatures -/

theorem opensBodyOrEnds_eq_true_iff : opensBodyOrEnds u = true ↔ u = unit '\x7b' ∨ u = unit ';' := by
  rw [opensBodyOrEnds, Bool.or_eq_true, beq_iff_eq, beq_iff_eq]

/-- A type, a name that a gap sets apart from it, parameters, and the unit behind them. -/
structure Signature where
  type : Text
  declarator : Declarator
  blanks : Text
  parameters : Text
  blanksBehind : Text
  ending : CodeUnit
  isIdentifier : type.isIdentifier = true
  canReturn : statementWords.contains type = false
  lead_ne_nil : declarator.lead ≠ []
  lead : ∀ u ∈ declarator.lead, isBlankOrStar u = true
  length_le : (type ++ declarator.lead).length ≤ lookBack
  isBlank_blanks : ∀ u ∈ blanks, isBlank u = true
  isParameters : IsParameters parameters
  isBlank_blanksBehind : ∀ u ∈ blanksBehind, isBlank u = true
  ends : opensBodyOrEnds ending = true

namespace Signature

variable (s : Signature)

/-- The part from the name on. -/
def call : Text :=
  s.declarator.name ++ (s.blanks ++ unit '(' :: (s.parameters ++ unit ')' :: (s.blanksBehind ++ [s.ending])))

def text : Text := s.type ++ (s.declarator.lead ++ s.call)

theorem isBlank_ending : isBlank s.ending = false := by
  obtain hbrace | hsemicolon := opensBodyOrEnds_eq_true_iff.mp s.ends
  · rw [hbrace]; rfl
  · rw [hsemicolon]; rfl

theorem call_append (rest : Text) : s.call ++ rest =
    s.declarator.name ++
      (s.blanks ++ unit '(' :: (s.parameters ++ unit ')' :: (s.blanksBehind ++ s.ending :: rest))) := by
  simp only [call, List.append_assoc, List.cons_append, List.nil_append]

/-- The signature is one from its name on. -/
theorem signature?_call (rest : Text) : signature? (s.call ++ rest) = some (s.declarator.name, rest) := by
  have hbehind : Text.startsInWord
      (s.blanks ++ unit '(' :: (s.parameters ++ unit ')' :: (s.blanksBehind ++ s.ending :: rest))) = false :=
    Text.startsInWord_blanks_append s.isBlank_blanks rfl
  have hname := Text.identifier?_eq_some_iff.mpr ⟨s.call_append rest, s.declarator.isIdentifier, hbehind⟩
  have hopen := Text.dropWhile_append_cons s.isBlank_blanks (show isBlank (unit '(') = false from rfl)
    (s.parameters ++ unit ')' :: (s.blanksBehind ++ s.ending :: rest))
  have hend := Text.dropWhile_append_cons s.isBlank_blanksBehind s.isBlank_ending rest
  simp only [signature?, hname, Option.bind_eq_bind, Option.bind_some, Text.skipBlanks, hopen,
    Text.afterUnit?_eq_some_iff.mpr rfl, afterParameters?_append s.isParameters, hend, s.ends, if_true]

/-- No parameter list that has been opened before a signature is closed in it. -/
theorem afterParameters?_call (nested : Bool) (rest : Text) : afterParameters? nested (s.call ++ rest) = none := by
  have hending : ∀ nested, afterParameters? nested (s.ending :: rest) = none := by
    intro nested
    obtain hbrace | hsemicolon := opensBodyOrEnds_eq_true_iff.mp s.ends
    · rw [hbrace]; rfl
    · rw [hsemicolon]; rfl
  have hbehind : afterParameters? false (s.blanksBehind ++ s.ending :: rest) = none := by
    rw [afterParameters?_plain fun u hu => isParameterUnit_of_isBlank (s.isBlank_blanksBehind u hu), hending]
  rw [call_append,
    afterParameters?_plain fun u hu =>
      isParameterUnit_of_isIdentifierUnit (Text.isRun_of_isIdentifier s.declarator.isIdentifier u hu),
    afterParameters?_plain fun u hu => isParameterUnit_of_isBlank (s.isBlank_blanks u hu)]
  cases nested with
  | true => rfl
  | false => exact afterParameters?_true_append s.isParameters hbehind

theorem exists_call_append (rest : Text) : ∃ v tail, s.call ++ rest = v :: tail ∧ isIdentifierUnit v = true := by
  have hstarts := Text.startsInWord_of_isIdentifier s.declarator.isIdentifier
    (s.blanks ++ unit '(' :: (s.parameters ++ unit ')' :: (s.blanksBehind ++ s.ending :: rest)))
  rw [← s.call_append] at hstarts
  cases hcall : s.call ++ rest with
  | nil => rw [hcall] at hstarts; cases hstarts
  | cons v tail => exact ⟨v, tail, rfl, Text.isIdentifierUnit_of_startsInWord hstarts (by rw [hcall]; rfl)⟩

end Signature

/-- What fits before a signature ends before it. -/
theorem length_le_of_signatureShape (s : Signature) (hne : before ≠ []) (hbefore : before.EndsOutsideWord)
    (h : signatureShape inWord (before ++ (s.call ++ rest)) = some (n, name)) : n ≤ before.length := by
  obtain ⟨⟨name', found⟩, hsignature, hleaving⟩ := Option.map_eq_some_iff.mp h
  obtain ⟨rfl, rfl⟩ := Prod.mk.inj hleaving
  obtain ⟨afterName, parameters, afterList, u, hname, hopen, hlist, hend, hends⟩ := exists_of_signature? hsignature
  obtain ⟨hsplit, hidentifier, _⟩ := Text.identifier?_eq_some_iff.mp hname
  obtain ⟨v, tail, hcall, hv⟩ := s.exists_call_append rest
  have hblank : isBlank v = false := isBlank_of_isIdentifierUnit hv
  have hparenthesis : v ≠ unit '(' := by rintro rfl; cases hv
  have hending : v ≠ u := by
    rintro rfl
    obtain rfl | rfl := opensBodyOrEnds_eq_true_iff.mp hends <;> cases hv
  -- Its name, its parenthesis, its list and its end all stand before the signature.
  obtain ⟨fromGap, _, _, _, rfl⟩ :=
    Text.exists_append_of_isRun hne hbefore (Text.isRun_of_isIdentifier hidentifier) hsplit
  rw [hcall] at hopen
  obtain ⟨fromList, rfl⟩ := Text.exists_append_of_skipBlanks hblank hparenthesis hopen
  rw [← hcall] at hlist
  obtain ⟨fromEnd, rfl⟩ := exists_append_of_afterParameters? (fun nested => s.afterParameters?_call nested rest) hlist
  rw [hcall] at hend
  obtain ⟨left, rfl⟩ := Text.exists_append_of_skipBlanks hblank hending hend
  simp only [hcall, List.length_append]
  omega

/-- In front of a signature nothing is found that reaches into it, so it is found itself. -/
theorem Signature.mem_occurrences (s : Signature) (hbefore : before.EndsOutsideWord) (rest : Text) :
    ⟨before.length, s.call.length, s.declarator.name⟩ ∈ signatureShape.occurrences (before ++ (s.call ++ rest)) := by
  have hne : s.call ≠ [] := List.append_ne_nil_of_left_ne_nil (Text.ne_nil_of_isIdentifier s.declarator.isIdentifier) _
  have hfit : signatureShape false (s.call ++ rest) = some (s.call.length, s.declarator.name) := by
    rw [signatureShape, s.signature?_call, Option.map_some, Shape.leaving, List.length_append, Nat.add_sub_cancel]
  exact Shape.mem_occurrences hbefore (List.length_pos_iff.mpr hne) hfit (List.append_ne_nil_of_left_ne_nil hne rest)
    fun _ _ _ _ _ _ hne' hends hshape => length_le_of_signatureShape s hne' hends hshape

/-! ## Return types -/

theorem isDigit_of_isIdentifierStart (h : isIdentifierStart u = true) : isDigit u = false := by
  have hunderscore : unit '_' = 95 := rfl
  simp only [isIdentifierStart, hunderscore, Bool.or_eq_true, Bool.and_eq_true, decide_eq_true_eq, beq_iff_eq,
    UInt16.le_iff_toNat_le, ← UInt16.toNat_inj, UInt16.reduceToNat] at h
  simp only [isDigit, Bool.and_eq_false_iff, decide_eq_false_iff_not, UInt16.le_iff_toNat_le, UInt16.reduceToNat]
  omega

theorem dropWhile_isDigit_of_isIdentifier (h : word.isIdentifier = true) : word.dropWhile isDigit = word := by
  cases word with
  | nil => rfl
  | cons u word =>
    rw [Text.isIdentifier, Bool.and_eq_true] at h
    exact List.dropWhile_cons_of_neg (by rw [isDigit_of_isIdentifierStart h.1]; exact Bool.false_ne_true)

/-- Behind its digits, a run that goes on is an identifier. -/
theorem isIdentifier_dropWhile_isDigit (hrun : word.IsRun) (hne : word.dropWhile isDigit ≠ []) :
    Text.isIdentifier (word.dropWhile isDigit) = true := by
  have hrest : Text.IsRun (word.dropWhile isDigit) := fun u hu => hrun u ((List.dropWhile_sublist _).subset hu)
  have hfirst := List.head?_dropWhile_not isDigit word
  cases hdrop : word.dropWhile isDigit with
  | nil => exact absurd hdrop hne
  | cons u rest =>
    rw [hdrop] at hrest hfirst
    have hunit := hrest u List.mem_cons_self
    rw [isIdentifierUnit, hfirst, Bool.or_false] at hunit
    rw [Text.isIdentifier, hunit, List.all_eq_true.mpr fun v hv => hrest v (List.mem_cons_of_mem u hv)]
    rfl

/-- The return type in front of a gap is the word there, without its digits. -/
theorem returnType?_append_eq_some_iff (hbefore : ∀ u ∈ before.getLast?, isBlankOrStar u = false) (hne : gap ≠ [])
    (hgap : ∀ u ∈ gap, isBlankOrStar u = true) :
    returnType? (before ++ gap) = some word ↔ (trailingWord before).dropWhile isDigit = word ∧ word ≠ [] := by
  have hunits : ∀ u ∈ gap.reverse, isBlankOrStar u = true := fun u hu => hgap u (List.mem_reverse.mp hu)
  have hdrop : (before ++ gap).reverse.dropWhile isBlankOrStar = before.reverse := by
    rw [List.reverse_append]
    exact Text.dropWhile_append_of_head? hunits fun u hu => hbefore u (by rwa [List.getLast?_eq_head?_reverse])
  have htake : ((before ++ gap).reverse.takeWhile isBlankOrStar).isEmpty = false := by
    rw [List.reverse_append, List.takeWhile_append_of_pos hunits, List.isEmpty_eq_false_iff]
    exact List.append_ne_nil_of_left_ne_nil (mt List.reverse_eq_nil_iff.mp hne) _
  rw [returnType?, hdrop, htake, ← trailingWord]
  simp only [Bool.false_eq_true, false_or, List.isEmpty_iff]
  split
  · rename_i hnil
    exact iff_of_false (fun h => by cases h) fun h => h.2 (h.1 ▸ hnil)
  · rename_i hword
    rw [Option.some.injEq]
    exact ⟨fun h => ⟨h, h ▸ hword⟩, fun h => h.1⟩

/-- Digits in front of a return type do not belong to it. -/
theorem returnType?_of_digits {digits : Text} (hbefore : before.EndsOutsideWord)
    (hdigits : ∀ u ∈ digits, isDigit u = true) (hword : word.isIdentifier = true) (hne : gap ≠ [])
    (hgap : ∀ u ∈ gap, isBlankOrStar u = true) :
    returnType? (before ++ (digits ++ (word ++ gap))) = some word := by
  have hword_ne := Text.ne_nil_of_isIdentifier hword
  have hrun : Text.IsRun (digits ++ word) := (Text.isRun_of_isDigit hdigits).append (Text.isRun_of_isIdentifier hword)
  have hlast := Text.isBlankOrStar_of_mem_getLast? hrun (List.append_ne_nil_of_right_ne_nil digits hword_ne) before
  have htext : before ++ (digits ++ (word ++ gap)) = before ++ (digits ++ word) ++ gap := by
    simp only [List.append_assoc]
  rw [htext, returnType?_append_eq_some_iff hlast hne hgap, trailingWord_append hbefore hrun,
    List.dropWhile_append_of_pos hdigits]
  exact ⟨dropWhile_isDigit_of_isIdentifier hword, hword_ne⟩

/-- An identifier with a gap behind it can be a return type. -/
theorem returnType?_append (hword : word.isIdentifier = true) (hbefore : before.EndsOutsideWord) (hne : gap ≠ [])
    (hgap : ∀ u ∈ gap, isBlankOrStar u = true) : returnType? (before ++ (word ++ gap)) = some word :=
  returnType?_of_digits hbefore (List.forall_mem_nil _) hword hne hgap

/-- A return type stands at the end of a text, with a gap behind it. -/
theorem exists_of_returnType? (h : returnType? t = some word) :
    ∃ before gap, t = before ++ (word ++ gap) ∧ word.isIdentifier = true ∧ gap ≠ [] ∧
      ∀ u ∈ gap, isBlankOrStar u = true := by
  have hrun : (t.reverse.takeWhile isBlankOrStar).reverse ≠ [] := by
    rw [returnType?] at h
    split at h
    · cases h
    · rename_i hsome
      rw [not_or, List.isEmpty_iff] at hsome
      exact mt List.reverse_eq_nil_iff.mp hsome.1
  obtain ⟨before, gap, rfl, hbefore, hne, hgap⟩ : ∃ before gap, t = before ++ gap ∧
      (∀ u ∈ before.getLast?, isBlankOrStar u = false) ∧ gap ≠ [] ∧ ∀ u ∈ gap, isBlankOrStar u = true := by
    refine ⟨(t.reverse.dropWhile isBlankOrStar).reverse, (t.reverse.takeWhile isBlankOrStar).reverse, ?_, ?_, hrun, ?_⟩
    · rw [← List.reverse_append, List.takeWhile_append_dropWhile, List.reverse_reverse]
    · intro u hu
      have hfirst := List.head?_dropWhile_not isBlankOrStar t.reverse
      rw [List.getLast?_reverse] at hu
      rwa [hu] at hfirst
    · exact fun u hu => List.all_eq_true.mp List.all_takeWhile u (List.mem_reverse.mp hu)
  obtain ⟨rfl, hword⟩ := (returnType?_append_eq_some_iff hbefore hne hgap).mp h
  refine ⟨stem before ++ (trailingWord before).takeWhile isDigit, gap, ?_,
    isIdentifier_dropWhile_isDigit (isRun_trailingWord before) hword, hne, hgap⟩
  rw [← List.append_assoc, List.append_assoc (stem before), List.takeWhile_append_dropWhile, stem_append_trailingWord]

/-- A word that ends in an identifier is one itself behind its digits. -/
theorem exists_digits_of_isIdentifier (hword : word.isIdentifier = true) (before : Text) :
    ∃ front digits type : Text, before ++ word = front ++ (digits ++ type) ∧ front.EndsOutsideWord ∧
      (∀ u ∈ digits, isDigit u = true) ∧ type.isIdentifier = true := by
  have hrun : Text.IsRun (trailingWord before ++ word) :=
    (isRun_trailingWord before).append (Text.isRun_of_isIdentifier hword)
  have hne : (trailingWord before ++ word).dropWhile isDigit ≠ [] := by
    intro hnil
    obtain ⟨u, rest, rfl⟩ := List.exists_cons_of_ne_nil (Text.ne_nil_of_isIdentifier hword)
    rw [Text.isIdentifier, Bool.and_eq_true] at hword
    have hdigit := List.dropWhile_eq_nil_iff.mp hnil u (List.mem_append_right _ List.mem_cons_self)
    rw [isDigit_of_isIdentifierStart hword.1] at hdigit
    cases hdigit
  refine ⟨stem before, (trailingWord before ++ word).takeWhile isDigit, _, ?_, endsOutsideWord_stem before,
    List.all_eq_true.mp List.all_takeWhile, isIdentifier_dropWhile_isDigit hrun hne⟩
  rw [List.takeWhile_append_dropWhile, ← List.append_assoc, stem_append_trailingWord]

theorem lastUnits_append {w : Text} (h : w.length ≤ n) (before : Text) :
    lastUnits n (before ++ w) = before.drop (before.length + w.length - n) ++ w := by
  rw [lastUnits, List.length_append, List.drop_append_of_le_length (by omega)]

theorem endsOutsideWord_drop (h : before.EndsOutsideWord) (k : Nat) : Text.EndsOutsideWord (before.drop k) := by
  intro u hu
  rw [List.getLast?_drop] at hu
  split at hu
  · cases hu
  · exact h u hu

/-! ## Function names -/

/-- A name stands at an offset as a whole word, with a parenthesis behind it and an identifier before it; the word
that this identifier ends may start with digits. -/
structure NamesFunctionAt (masked : Text) (p : Nat) (name : Text) : Prop where
  word : masked.IsWordAt p name
  isIdentifier : name.isIdentifier = true
  opens : opensList (masked.drop (p + name.length)) = true
  typed : ∃ front digits type gap : Text, masked.take p = front ++ (digits ++ (type ++ gap)) ∧ front.EndsOutsideWord ∧
    (∀ u ∈ digits, isDigit u = true) ∧ type.isIdentifier = true ∧ gap ≠ [] ∧ ∀ u ∈ gap, isBlankOrStar u = true

theorem isFunctionName_eq_true_iff {masked : Text} {found : Occurrence Text} :
    isFunctionName n masked found = true ↔ Vocabulary.isReserved found.value = false ∧
      ∃ type, returnType? (lastUnits n (masked.take found.position)) = some type ∧
        statementWords.contains type = false := by
  rw [isFunctionName, Bool.and_eq_true, Bool.not_eq_true']
  cases returnType? (lastUnits n (masked.take found.position)) with
  | none => simp
  | some type => simp

theorem namesFunctionAt_of_mem_occurrences {masked : Text} {found : Occurrence Text}
    (hfound : found ∈ signatureShape.occurrences masked) (h : isFunctionName n masked found = true) :
    NamesFunctionAt masked found.position found.value := by
  obtain ⟨before, rest, rfl, hposition, _, hshape⟩ := Shape.exists_of_mem_occurrences hfound
  obtain ⟨_, type, htype, _⟩ := isFunctionName_eq_true_iff.mp h
  obtain ⟨⟨name, found'⟩, hsignature, hleaving⟩ := Option.map_eq_some_iff.mp hshape
  obtain ⟨_, hvalue⟩ := Prod.mk.inj hleaving
  obtain ⟨afterName, parameters, _, _, hname, hopen, _⟩ := exists_of_signature? hsignature
  obtain ⟨rfl, hidentifier, hbehind⟩ := Text.identifier?_eq_some_iff.mp hname
  rw [hposition, List.take_left] at htype
  rw [hposition, ← show name = found.value from hvalue]
  obtain ⟨window, gap, hwindow, hword, hne, hgap⟩ := exists_of_returnType? htype
  obtain ⟨front, digits, type', hsplit, hfront, hdigits, htype'⟩ :=
    exists_digits_of_isIdentifier hword (before.take (before.length - n) ++ window)
  have hbefore : before = front ++ (digits ++ (type' ++ gap)) := by
    have htake := List.take_append_drop (before.length - n) before
    rw [← lastUnits, hwindow, ← List.append_assoc, ← List.append_assoc, hsplit] at htake
    simpa only [List.append_assoc] using htake.symm
  have hends : before.EndsOutsideWord := by
    rw [hbefore, ← List.append_assoc, ← List.append_assoc]
    exact Text.endsOutsideWord_append_gap hgap hne _
  refine ⟨Text.isWordAt_append hends hbehind, hidentifier, ?_, front, digits, type', gap, ?_, hfront, hdigits, htype',
    hne, hgap⟩
  · rw [← List.drop_drop, List.drop_left, List.drop_left, opensList, hopen]
    rfl
  · rw [List.take_left, hbefore]

/-- What stands before the name of a signature is its type and gap, which all fall into the window. -/
theorem Signature.isFunctionName (s : Signature) (hbefore : before.EndsOutsideWord) (rest : Text) :
    isFunctionName lookBack ((before ++ (s.type ++ s.declarator.lead)) ++ rest)
      ⟨(before ++ (s.type ++ s.declarator.lead)).length, s.call.length, s.declarator.name⟩ = true := by
  rw [isFunctionName_eq_true_iff, List.take_left, lastUnits_append s.length_le,
    returnType?_append s.isIdentifier (endsOutsideWord_drop hbefore _) s.lead_ne_nil s.lead]
  exact ⟨s.declarator.free, s.type, rfl, s.canReturn⟩

theorem IsParameters.opensNothing (h : IsParameters parameters) : ∀ u ∈ parameters, Region.OpensNothing u := by
  induction h with
  | nil => exact List.forall_mem_nil _
  | plain hu _ ih => exact List.forall_mem_cons.mpr ⟨hu.2.2.2.2.2, ih⟩
  | group hinner _ ih =>
    refine List.forall_mem_cons.mpr ⟨by decide, List.forall_mem_append.mpr ⟨fun u hu => (hinner u hu).2.2.2.2.2, ?_⟩⟩
    exact List.forall_mem_cons.mpr ⟨by decide, ih⟩

theorem Signature.opensNothing (s : Signature) : ∀ u ∈ s.text, Region.OpensNothing u := by
  have hword {w : Text} (hw : w.isIdentifier = true) : ∀ u ∈ w, Region.OpensNothing u :=
    fun u hu => Region.opensNothing_of_isIdentifierUnit (Text.isRun_of_isIdentifier hw u hu)
  have hblank {w : Text} (hw : ∀ u ∈ w, isBlank u = true) : ∀ u ∈ w, Region.OpensNothing u :=
    fun u hu => (isParameterUnit_of_isBlank (hw u hu)).2.2.2.2.2
  have hending : Region.OpensNothing s.ending := by
    obtain hbrace | hsemicolon := opensBodyOrEnds_eq_true_iff.mp s.ends
    · rw [hbrace]; decide
    · rw [hsemicolon]; decide
  simp only [Signature.text, Signature.call, List.forall_mem_append, List.forall_mem_cons]
  exact ⟨hword s.isIdentifier, fun u hu => Region.opensNothing_of_isBlankOrStar (s.lead u hu),
    hword s.declarator.isIdentifier, hblank s.isBlank_blanks, by decide, s.isParameters.opensNothing, by decide,
    hblank s.isBlank_blanksBehind, hending, List.forall_mem_nil _⟩

/-- The functions of a text: a signature that stands in code gives its name, and every name is given once, is no reserved
word, and stands somewhere behind a word and in front of a parenthesis. -/
theorem functions_signature (s : Signature) (hcode : Region.code.after before = .code)
    (hbefore : before.EndsOutsideWord) (behind : Text) :
    s.declarator.name ∈ functions (before ++ (s.text ++ behind)) ∧
    ∀ t, (functions t).Nodup ∧ ∀ name ∈ functions t,
      Vocabulary.isReserved name = false ∧ ∃ p, NamesFunctionAt (maskNonCode t) p name := by
  constructor
  · have hmasked : maskNonCode (before ++ (s.text ++ behind)) =
        (maskNonCode before ++ (s.type ++ s.declarator.lead)) ++ (s.call ++ Region.code.mask behind) := by
      have hstarts : Text.startsInWord s.text = true := Text.startsInWord_of_isIdentifier s.isIdentifier _
      rw [maskNonCode_append hcode hstarts s.opensNothing]
      simp only [Signature.text, List.append_assoc]
    have hmask := Region.endsOutsideWord_mask .code hbefore
    have hlead : Text.EndsOutsideWord (maskNonCode before ++ (s.type ++ s.declarator.lead)) := by
      rw [← List.append_assoc]
      exact Text.endsOutsideWord_append_gap s.lead s.lead_ne_nil _
    rw [functions, functionsWithin, List.mem_eraseDups, hmasked]
    exact List.mem_map.mpr ⟨_, List.mem_filter.mpr ⟨s.mem_occurrences hlead _, s.isFunctionName hmask _⟩, rfl⟩
  · intro t
    refine ⟨nodup_eraseDups _, fun name hname => ?_⟩
    rw [functions, functionsWithin, List.mem_eraseDups] at hname
    obtain ⟨found, hfound, rfl⟩ := List.mem_map.mp hname
    obtain ⟨hfound, hfunction⟩ := List.mem_filter.mp hfound
    exact ⟨(isFunctionName_eq_true_iff.mp hfunction).1, found.position,
      namesFunctionAt_of_mem_occurrences hfound hfunction⟩

/-- A definition with a function for its first parameter. -/
def applied : Signature where
  type := "int"
  declarator := ⟨" *", "apply", rfl, by decide +kernel⟩
  blanks := ""
  parameters := "int (*f)(int), int b"
  blanksBehind := "\n"
  ending := unit '\x7b'
  isIdentifier := rfl
  canReturn := by decide
  lead_ne_nil := by decide
  lead := List.all_eq_true.mp (by decide)
  length_le := by decide
  isBlank_blanks := List.all_eq_true.mp (by decide)
  isParameters := by
    have hreturn : ∀ u ∈ Text.ofString "int ", IsParameterUnit u := List.all_iff_forall_prop.mp (by decide +kernel)
    have hname : ∀ u ∈ Text.ofString "*f", IsParameterUnit u := List.all_iff_forall_prop.mp (by decide +kernel)
    have hargument : ∀ u ∈ Text.ofString "int", IsParameterUnit u := List.all_iff_forall_prop.mp (by decide +kernel)
    have hsecond : ∀ u ∈ Text.ofString ", int b", IsParameterUnit u := List.all_iff_forall_prop.mp (by decide +kernel)
    have hlist := (isParameters_of_units hreturn).append (.group hname (.group hargument (isParameters_of_units hsecond)))
    exact hlist
  isBlank_blanksBehind := List.all_eq_true.mp (by decide)
  ends := rfl

/-- The parenthesis that is left open before it does not hide the definition. -/
theorem functions_applied :
    let t : Text := "g( int *apply(int (*f)(int), int b)\n\x7b"
    Text.ofString "apply" ∈ functions t ∧ ∀ name ∈ functions t, ∃ p, NamesFunctionAt (maskNonCode t) p name := by
  intro t
  have hcode : Region.code.after "g( " = .code := by decide +kernel
  have hbefore : Text.EndsOutsideWord "g( " := Text.endsOutsideWord_concat "g(" rfl
  have htext : Text.ofString "g( " ++ (applied.text ++ []) = t := by decide +kernel
  obtain ⟨hfound, hsound⟩ := functions_signature applied hcode hbefore []
  rw [htext] at hfound
  exact ⟨hfound, fun name hname => ((hsound t).2 name hname).2⟩

end CCompletion.Harvest
