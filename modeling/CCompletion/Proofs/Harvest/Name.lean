import CCompletion.Harvest.Signature
import CCompletion.Harvest.TypeName
import CCompletion.Proofs.Text.Leading

/-!
# Harvested names

What a shape finds in a text it finds at some place of the text. The functions and types of a text are
found by shapes that read an identifier, so their names are identifiers.
-/

namespace CCompletion

namespace Shape

variable {α : Type} {shape : Shape α}

/-- Does an identifier unit end a text, where `inWord` says so of what stands before it? -/
def wordEnds (inWord : Bool) (before : Text) : Bool := (before.getLast?.map isIdentifierUnit).getD inWord

theorem wordEnds_cons (inWord : Bool) (u : CodeUnit) (before : Text) :
    wordEnds inWord (u :: before) = wordEnds (isIdentifierUnit u) before := by
  cases before <;> rfl

theorem wordEnds_of_endsOutsideWord {before : Text} (h : before.EndsOutsideWord) : wordEnds false before = false := by
  rw [wordEnds]
  cases hlast : before.getLast? with
  | none => rfl
  | some u => exact h u hlast

/-- An occurrence is a fit of the shape at its position. -/
theorem exists_of_mem_occurrencesFrom {inWord : Bool} {position skip : Nat} {t : Text}
    {found : Occurrence α} (h : found ∈ occurrencesFrom shape inWord position skip t) :
    ∃ before rest, t = before ++ rest ∧ found.position = position + before.length ∧
      skip ≤ before.length ∧ 0 < found.length ∧
      shape (wordEnds inWord before) rest = some (found.length, found.value) := by
  induction t generalizing inWord position skip with
  | nil => simp [occurrencesFrom] at h
  | cons u t ih =>
    -- An occurrence in the rest of the text is one of the whole text, one unit further on.
    have later {k : Nat}
        (hmem : found ∈ occurrencesFrom shape (isIdentifierUnit u) (position + 1) k t)
        (hk : skip ≤ k + 1) :
        ∃ before rest, u :: t = before ++ rest ∧ found.position = position + before.length ∧
          skip ≤ before.length ∧ 0 < found.length ∧
          shape (wordEnds inWord before) rest = some (found.length, found.value) := by
      obtain ⟨before, rest, rfl, hposition, hskip, hlength, hshape⟩ := ih hmem
      refine ⟨u :: before, rest, rfl, ?_, ?_, hlength, ?_⟩
      · rw [hposition, List.length_cons]; omega
      · rw [List.length_cons]; omega
      · rw [wordEnds_cons, hshape]
    cases skip with
    | succ k => exact later h (Nat.le_refl _)
    | zero =>
      simp only [occurrencesFrom] at h
      split at h
      · rename_i n a hshape
        rcases List.mem_cons.mp h with rfl | hmem
        · exact ⟨[], u :: t, rfl, rfl, Nat.le_refl _, Nat.succ_pos _, hshape⟩
        · exact later hmem (Nat.zero_le _)
      · exact later h (Nat.zero_le _)

theorem exists_of_mem_occurrences {t : Text} {found : Occurrence α}
    (h : found ∈ occurrences shape t) :
    ∃ before rest, t = before ++ rest ∧ found.position = before.length ∧ 0 < found.length ∧
      shape (wordEnds false before) rest = some (found.length, found.value) := by
  obtain ⟨before, rest, ht, hposition, _, hlength, hshape⟩ := exists_of_mem_occurrencesFrom h
  exact ⟨before, rest, ht, by rw [hposition, Nat.zero_add], hlength, hshape⟩

theorem occurrences_eq_nil {t : Text} (h : ∀ inWord before rest, t = before ++ rest → shape inWord rest = none) :
    shape.occurrences t = [] := by
  rw [List.eq_nil_iff_forall_not_mem]
  intro found hfound
  obtain ⟨before, rest, hsplit, _, _, hshape⟩ := exists_of_mem_occurrences hfound
  rw [h _ before rest hsplit] at hshape
  cases hshape

/-- A fit at the start is the only occurrence when nothing behind it fits. -/
theorem occurrences_eq_singleton {t : Text} {n : Nat} {a : α} (hfit : shape false t = some (n, a)) (hn : 0 < n) (hne : t ≠ [])
    (hbehind : ∀ inWord before rest, t = before ++ rest → n ≤ before.length → shape inWord rest = none) :
    shape.occurrences t = [⟨0, n, a⟩] := by
  obtain ⟨u, t, rfl⟩ := List.exists_cons_of_ne_nil hne
  obtain ⟨n, rfl⟩ := Nat.exists_eq_add_one.mpr hn
  rw [occurrences, occurrencesFrom]
  simp only [hfit, List.cons.injEq, true_and]
  rw [List.eq_nil_iff_forall_not_mem]
  intro found hfound
  obtain ⟨before, rest, rfl, _, hskip, _, hshape⟩ := exists_of_mem_occurrencesFrom hfound
  rw [hbehind _ (u :: before) rest rfl (Nat.succ_le_succ hskip)] at hshape
  cases hshape

/-- A fit is an occurrence when no earlier fit reaches over the place where it starts. -/
theorem mem_occurrencesFrom {inWord : Bool} {position skip n : Nat} {before rest : Text} {a : α}
    (hfit : shape (wordEnds inWord before) rest = some (n + 1, a)) (hrest : rest ≠ []) (hskip : skip ≤ before.length)
    (hearlier : ∀ b b' m x, before = b ++ b' → b' ≠ [] → shape (wordEnds inWord b) (b' ++ rest) = some (m, x) →
      m ≤ b'.length) :
    ⟨position + before.length, n + 1, a⟩ ∈ occurrencesFrom shape inWord position skip (before ++ rest) := by
  induction before generalizing inWord position skip with
  | nil =>
    obtain rfl := Nat.le_zero.mp hskip
    obtain ⟨u, rest, rfl⟩ := List.exists_cons_of_ne_nil hrest
    have hfirst : shape inWord (u :: rest) = some (n + 1, a) := hfit
    rw [List.nil_append, occurrencesFrom, hfirst]
    exact List.mem_cons_self
  | cons u before ih =>
    have hlater {k : Nat} (hk : k ≤ before.length) : ⟨position + (u :: before).length, n + 1, a⟩ ∈
        occurrencesFrom shape (isIdentifierUnit u) (position + 1) k (before ++ rest) := by
      rw [List.length_cons, Nat.add_comm before.length 1, ← Nat.add_assoc]
      refine ih (by rwa [wordEnds_cons] at hfit) hk fun b b' m x hsplit hne hshape => ?_
      exact hearlier (u :: b) b' m x (congrArg (u :: ·) hsplit) hne (by rwa [wordEnds_cons])
    rw [List.cons_append]
    cases skip with
    | succ k => exact hlater (Nat.le_of_succ_le_succ hskip)
    | zero =>
      simp only [occurrencesFrom]
      split
      · rename_i m x hshape
        have hm := hearlier [] (u :: before) (m + 1) x rfl (List.cons_ne_nil u before) hshape
        exact List.mem_cons_of_mem _ (hlater (Nat.le_of_succ_le_succ hm))
      · exact hlater (Nat.zero_le _)

/-- Between words, a fit is an occurrence when no earlier one reaches over the place where it starts. -/
theorem mem_occurrences {n : Nat} {before rest : Text} {a : α} (hbefore : before.EndsOutsideWord) (hn : 0 < n)
    (hfit : shape false rest = some (n, a)) (hrest : rest ≠ [])
    (hearlier : ∀ inWord b b' m x, before = b ++ b' → b' ≠ [] → b'.EndsOutsideWord →
      shape inWord (b' ++ rest) = some (m, x) → m ≤ b'.length) :
    ⟨before.length, n, a⟩ ∈ occurrences shape (before ++ rest) := by
  obtain ⟨n, rfl⟩ := Nat.exists_eq_add_one.mpr hn
  rw [← wordEnds_of_endsOutsideWord hbefore] at hfit
  rw [occurrences, ← Nat.zero_add before.length]
  refine mem_occurrencesFrom hfit hrest (Nat.zero_le _) fun b b' m x hsplit hne hshape => ?_
  exact hearlier _ b b' m x hsplit hne (Text.EndsOutsideWord.of_append (t := b) (hsplit ▸ hbefore) hne) hshape

/-- What holds of all that a shape can find holds of what it finds first. -/
theorem of_first? {P : α → Prop} (hP : ∀ inWord t n a, shape inWord t = some (n, a) → P a) {t : Text}
    {a : α} (h : first? shape t = some a) : P a := by
  obtain ⟨found, hfound, rfl⟩ := Option.map_eq_some_iff.mp h
  obtain ⟨_, _, _, _, _, hshape⟩ := exists_of_mem_occurrences (List.mem_of_mem_head? hfound)
  exact hP _ _ _ _ hshape

/-- What a shape finds first is its fit at the first offset at which it takes anything. -/
theorem exists_of_head?_occurrencesFrom {inWord : Bool} {position : Nat} {t : Text} {found : Occurrence α}
    (h : (occurrencesFrom shape inWord position 0 t).head? = some found) :
    ∃ before rest, t = before ++ rest ∧
      (∃ n, shape (wordEnds inWord before) rest = some (n + 1, found.value)) ∧
      ∀ b b' n a, before = b ++ b' → b' ≠ [] → shape (wordEnds inWord b) (b' ++ rest) = some (n, a) → n = 0 := by
  induction t generalizing inWord position with
  | nil => cases h
  | cons u t ih =>
    simp only [occurrencesFrom] at h
    split at h
    · rename_i n a hshape
      obtain rfl := Option.some.inj h
      refine ⟨[], u :: t, rfl, ⟨n, hshape⟩, fun b b' n a hnil hne _ => ?_⟩
      exact absurd (List.append_eq_nil_iff.mp hnil.symm).2 hne
    · rename_i hnone
      obtain ⟨before, rest, rfl, ⟨n, hfit⟩, hfirst⟩ := ih h
      refine ⟨u :: before, rest, rfl, ⟨n, by rwa [wordEnds_cons]⟩, fun b b' n a hsplit hne hshape => ?_⟩
      cases b with
      | nil =>
        obtain rfl : u :: before = b' := hsplit
        cases n with
        | zero => rfl
        | succ n => exact absurd hshape (hnone n a)
      | cons v b =>
        obtain ⟨rfl, hbefore⟩ := List.cons.inj hsplit
        rw [wordEnds_cons] at hshape
        exact hfirst b b' n a hbefore hne hshape

theorem exists_of_first? {t : Text} {a : α} (h : first? shape t = some a) :
    ∃ before rest, t = before ++ rest ∧
      (∃ n, shape (wordEnds false before) rest = some (n + 1, a)) ∧
      ∀ b b' n x, before = b ++ b' → b' ≠ [] → shape (wordEnds false b) (b' ++ rest) = some (n, x) → n = 0 := by
  obtain ⟨found, hfound, rfl⟩ := Option.map_eq_some_iff.mp h
  exact exists_of_head?_occurrencesFrom hfound

theorem head?_occurrencesFrom {inWord : Bool} {position n : Nat} {before rest : Text} {a : α}
    (hfit : shape (wordEnds inWord before) rest = some (n + 1, a)) (hrest : rest ≠ [])
    (hfirst : ∀ b b' m x, before = b ++ b' → b' ≠ [] → shape (wordEnds inWord b) (b' ++ rest) = some (m, x) → m = 0) :
    (occurrencesFrom shape inWord position 0 (before ++ rest)).head? = some ⟨position + before.length, n + 1, a⟩ := by
  induction before generalizing inWord position with
  | nil =>
    obtain ⟨u, rest, rfl⟩ := List.exists_cons_of_ne_nil hrest
    have hfit' : shape inWord (u :: rest) = some (n + 1, a) := hfit
    rw [List.nil_append, occurrencesFrom, hfit']
    rfl
  | cons u before ih =>
    rw [List.cons_append]
    simp only [occurrencesFrom]
    split
    · rename_i m x hshape
      exact absurd (hfirst [] (u :: before) (m + 1) x rfl (List.cons_ne_nil u before) hshape) (Nat.succ_ne_zero m)
    · rw [List.length_cons, Nat.add_comm before.length 1, ← Nat.add_assoc]
      refine ih (by rwa [wordEnds_cons] at hfit) fun b b' m x hsplit hne hshape => ?_
      exact hfirst (u :: b) b' m x (congrArg (u :: ·) hsplit) hne (by rwa [wordEnds_cons])

/-- A fit is found first when nothing fits earlier. -/
theorem first?_eq_some {n : Nat} {before rest : Text} {a : α} (hn : 0 < n)
    (hfit : shape (wordEnds false before) rest = some (n, a)) (hrest : rest ≠ [])
    (hfirst : ∀ b b' m x, before = b ++ b' → b' ≠ [] → shape (wordEnds false b) (b' ++ rest) = some (m, x) → m = 0) :
    first? shape (before ++ rest) = some a := by
  obtain ⟨n, rfl⟩ := Nat.exists_eq_add_one.mpr hn
  rw [first?, occurrences, head?_occurrencesFrom hfit hrest hfirst]
  rfl

end Shape

namespace Harvest

/-- A signature is a name, a list behind it, and what opens a body or ends a declaration. -/
theorem exists_of_signature? {t name rest : Text} (h : signature? t = some (name, rest)) :
    ∃ afterName parameters afterList u, Text.identifier? t = some (name, afterName) ∧
      Text.skipBlanks afterName = unit '(' :: parameters ∧ afterParameters? false parameters = some afterList ∧
      Text.skipBlanks afterList = u :: rest ∧ opensBodyOrEnds u = true := by
  simp only [signature?, Option.bind_eq_bind, Option.bind_eq_some_iff] at h
  obtain ⟨⟨name', afterName⟩, hname, parameters, hopen, afterList, hlist, hend⟩ := h
  split at hend
  · cases hend
  · rename_i u rest' hskip
    split at hend
    · rename_i hends
      obtain ⟨rfl, rfl⟩ := Prod.mk.inj (Option.some.inj hend)
      exact ⟨afterName, parameters, afterList, u, hname, Text.afterUnit?_eq_some_iff.mp hopen, hlist, hskip, hends⟩
    · cases hend

theorem isIdentifier_of_signatureShape {inWord : Bool} {t : Text} {n : Nat} {name : Text}
    (h : signatureShape inWord t = some (n, name)) : name.isIdentifier = true := by
  obtain ⟨⟨name', rest⟩, hsignature, heq⟩ := Option.map_eq_some_iff.mp h
  obtain ⟨_, rfl⟩ := Prod.mk.inj heq
  obtain ⟨_, _, _, _, hname, _⟩ := exists_of_signature? hsignature
  exact (Text.identifier?_eq_some_iff.mp hname).2.1

theorem isIdentifier_of_mem_functions {t name : Text} (h : name ∈ functions t) :
    name.isIdentifier = true := by
  rw [functions, functionsWithin, List.mem_eraseDups] at h
  obtain ⟨found, hfound, rfl⟩ := List.mem_map.mp h
  obtain ⟨_, _, _, _, _, hshape⟩ := Shape.exists_of_mem_occurrences (List.mem_filter.mp hfound).1
  exact isIdentifier_of_signatureShape hshape

theorem afterAny?_tagKeywords {keyword : Text} (h : keyword ∈ tagKeywords) (t : Text) :
    Text.afterAny? tagKeywords (keyword ++ t) = some t := by
  simp only [tagKeywords, Vocabulary.texts, List.map_cons, List.map_nil, List.mem_cons, List.not_mem_nil, or_false] at h
  obtain rfl | rfl | rfl := h
  · rfl
  · rfl
  · rfl

/-- A tag is a whole identifier behind a keyword and some blanks. -/
theorem tagged?_eq_some_iff {inWord : Bool} {t name rest : Text} :
    tagged? inWord t = some (name, rest) ↔ inWord = false ∧ ∃ keyword gap, t = keyword ++ (gap ++ (name ++ rest)) ∧
      keyword ∈ tagKeywords ∧ gap ≠ [] ∧ (∀ u ∈ gap, isBlank u = true) ∧ name.isIdentifier = true ∧
      Text.startsInWord rest = false := by
  unfold tagged?
  constructor
  · intro h
    split at h
    · cases h
    · rename_i hinWord
      simp only [Option.bind_eq_bind, Option.bind_eq_some_iff] at h
      obtain ⟨afterKeyword, hkeyword, tag, hgap, hname⟩ := h
      obtain ⟨keyword, hmem, hafter⟩ := List.exists_of_findSome?_eq_some hkeyword
      obtain rfl := Text.after?_eq_some_iff.mp hafter
      obtain ⟨gap, hne, hblank, rfl⟩ := Text.afterRun?_eq_some hgap
      obtain ⟨rfl, hidentifier, hrest⟩ := Text.identifier?_eq_some_iff.mp hname
      exact ⟨Bool.not_eq_true _ ▸ hinWord, keyword, gap, rfl, hmem, hne, hblank, hidentifier, hrest⟩
  · rintro ⟨rfl, keyword, gap, rfl, hmem, hne, hblank, hname⟩
    have hstart : ∀ u ∈ (name ++ rest).head?, isBlank u = false := fun u hu =>
      isBlank_of_isIdentifierUnit
        (Text.isIdentifierUnit_of_startsInWord (Text.startsInWord_of_isIdentifier hname.1 rest) hu)
    rw [if_neg Bool.false_ne_true, afterAny?_tagKeywords hmem]
    simp only [Option.bind_eq_bind, Option.bind_some, Text.afterRun?_append hne hblank hstart,
      Text.identifier?_eq_some_iff.mpr ⟨rfl, hname⟩]

theorem exists_of_tagged? {inWord : Bool} {t name rest : Text} (h : tagged? inWord t = some (name, rest)) :
    t.LeadsTo (name ++ rest) ∧ name.isIdentifier = true ∧ Text.startsInWord rest = false := by
  obtain ⟨_, keyword, gap, rfl, _, hne, hblank, hname⟩ := tagged?_eq_some_iff.mp h
  have hleads := Text.leadsTo_append hne (fun u hu => Text.isIdentifierUnit_of_isBlank (hblank u hu)) (name ++ rest)
  exact ⟨hleads.append keyword, hname⟩

theorem exists_of_tagShape {inWord : Bool} {t name : Text} {n : Nat} (h : tagShape inWord t = some (n, name)) :
    ∃ rest, t.LeadsTo (name ++ rest) ∧ name.isIdentifier = true ∧ Text.startsInWord rest = false := by
  simp only [tagShape, Option.bind_eq_bind, Option.bind_eq_some_iff, Option.pure_def,
    Option.some.injEq] at h
  obtain ⟨⟨tag, afterTag⟩, htagged, body, _, heq⟩ := h
  obtain ⟨_, rfl⟩ := Prod.mk.inj heq
  exact ⟨afterTag, exists_of_tagged? htagged⟩

theorem exists_of_pointerNameShape {inWord : Bool} {t name : Text} {n : Nat}
    (h : pointerNameShape inWord t = some (n, name)) :
    ∃ rest, t.LeadsTo (name ++ rest) ∧ name.isIdentifier = true ∧ Text.startsInWord rest = false := by
  simp only [pointerNameShape, Option.bind_eq_bind, Option.bind_eq_some_iff, Option.pure_def,
    Option.some.injEq] at h
  obtain ⟨inside, hinside, starred, hstarred, ⟨name, afterName⟩, hname, _, _, heq⟩ := h
  obtain ⟨_, rfl⟩ := Prod.mk.inj heq
  obtain ⟨hnamed, hidentifier, hrest⟩ := Text.identifier?_eq_some_iff.mp hname
  -- The star stands right before the blanks in front of the name.
  have hstar : Text.LeadsTo (unit '*' :: starred) (name ++ afterName) := by
    have hleads := Text.leadsTo_dropWhile (fun _ => Text.isIdentifierUnit_of_isBlank)
      (show isIdentifierUnit (unit '*') = false by rfl) starred
    rwa [← Text.skipBlanks, hnamed] at hleads
  rw [← Text.afterUnit?_eq_some_iff.mp hstarred] at hstar
  refine ⟨afterName, ?_, hidentifier, hrest⟩
  have hsplit : t = (unit '(' :: inside.takeWhile isBlank) ++ Text.skipBlanks inside := by
    rw [Text.skipBlanks, List.cons_append, List.takeWhile_append_dropWhile]
    exact Text.afterUnit?_eq_some_iff.mp hinside
  rw [hsplit]
  exact hstar.append _

theorem exists_of_lastNameShape {inWord : Bool} {t name : Text} {n : Nat}
    (h : lastNameShape inWord t = some (n, name)) :
    ∃ rest, t = name ++ rest ∧ name.isIdentifier = true ∧ Text.startsInWord rest = false ∧
      afterSuffixes false rest = some [] := by
  simp only [lastNameShape, Option.bind_eq_bind, Option.bind_eq_some_iff] at h
  obtain ⟨⟨name, afterName⟩, hname, rest, hsuffixes, heq⟩ := h
  split at heq
  · rename_i hempty
    obtain ⟨_, rfl⟩ := Prod.mk.inj (Option.some.inj heq)
    obtain ⟨rfl, hidentifier, hrest⟩ := Text.identifier?_eq_some_iff.mp hname
    rw [List.isEmpty_iff] at hempty
    exact ⟨afterName, rfl, hidentifier, hrest, hempty ▸ hsuffixes⟩
  · cases heq

theorem isIdentifier_of_introduced? {declaration name : Text} (h : introduced? declaration = some name) :
    name.isIdentifier = true := by
  simp only [introduced?] at h
  split at h
  · rename_i hfirst
    obtain rfl := Option.some.inj h
    refine Shape.of_first? (P := fun name => name.isIdentifier = true) (fun _ _ _ _ hshape => ?_) hfirst
    obtain ⟨_, _, hidentifier, _⟩ := exists_of_pointerNameShape hshape
    exact hidentifier
  · refine Shape.of_first? (P := fun name => name.isIdentifier = true) (fun _ _ _ _ hshape => ?_)
      (Option.eq_some_of_filter_eq_some h)
    obtain ⟨_, _, hidentifier, _⟩ := exists_of_lastNameShape hshape
    exact hidentifier

theorem isIdentifier_of_mem_typeNames {t name : Text} (h : name ∈ typeNames t) :
    name.isIdentifier = true := by
  rw [typeNames, List.mem_eraseDups] at h
  rcases List.mem_append.mp h with htag | htypedef
  · obtain ⟨found, hfound, rfl⟩ := List.mem_map.mp htag
    obtain ⟨_, _, _, _, _, hshape⟩ := Shape.exists_of_mem_occurrences hfound
    obtain ⟨_, _, hidentifier, _⟩ := exists_of_tagShape hshape
    exact hidentifier
  · obtain ⟨found, _, hname⟩ := List.mem_filterMap.mp htypedef
    obtain ⟨declaration, _, hintroduced⟩ := Option.bind_eq_some_iff.mp hname
    exact isIdentifier_of_introduced? hintroduced

end Harvest
end CCompletion
