import CCompletion.Completion.Insertion
import CCompletion.Proofs.Completion.Offer
import CCompletion.Proofs.Source.Word
import Mathlib.Data.Rat.Defs

/-!
# Insertions

Inserting a candidate replaces the word before the cursor and leaves the cursor in or behind what was inserted,
so that the next candidate can be inserted there. Only two things can be wrong: the cursor is not in the
text, or a snippet has no template; neither happens with what is offered at a cursor in the text.
-/

namespace CCompletion

variable {t : Text} {k : Nat} {offset : Number} {e : Refusal}

/-! ## Cursors -/

/-- The number is the offset of a cursor in the text or at one of its ends. -/
def Text.HasCursor (t : Text) (offset : Number) : Prop := ∃ k ≤ t.length, offset = .finite (k : Nat)

theorem Number.eq_of_toInt? {n : Number} {i : Int} (h : n.toInt? = some i) : n = .finite i := by
  cases n with
  | notANumber => cases h
  | infinite negative => cases h
  | finite q =>
    rw [toInt?] at h
    split at h
    · rename_i hden
      rw [← Option.some.inj h, Rat.coe_int_num_of_den_eq_one hden]
    · cases h

theorem cursorIn_eq_ok_iff : cursorIn t offset = .ok k ↔ k ≤ t.length ∧ offset = .finite k := by
  constructor
  · intro h
    rw [cursorIn] at h
    split at h
    · rename_i i hi
      split at h
      · rename_i hrange
        obtain ⟨n, rfl⟩ := Int.eq_ofNat_of_zero_le hrange.1
        obtain rfl : n = k := Except.ok.inj h
        exact ⟨Int.ofNat_le.mp hrange.2, Number.eq_of_toInt? hi⟩
      · cases h
    · cases h
  · rintro ⟨hk, rfl⟩
    rw [cursorIn_finite, if_pos hk]

theorem eq_of_cursorIn_eq_error (h : cursorIn t offset = .error e) : e = .cursorOutside offset t.length := by
  rw [cursorIn] at h
  split at h
  · split at h
    · cases h
    · exact (Except.error.inj h).symm
  · exact (Except.error.inj h).symm

theorem cursorIn_eq_error_iff :
    cursorIn t offset = .error e ↔ e = .cursorOutside offset t.length ∧ ¬t.HasCursor offset := by
  constructor
  · intro h
    refine ⟨eq_of_cursorIn_eq_error h, ?_⟩
    rintro ⟨k, hk⟩
    rw [cursorIn_eq_ok_iff.mpr hk] at h
    cases h
  · rintro ⟨rfl, hnone⟩
    cases hcursor : cursorIn t offset with
    | ok k => exact absurd ⟨k, cursorIn_eq_ok_iff.mp hcursor⟩ hnone
    | error e => rw [eq_of_cursorIn_eq_error hcursor]

namespace Candidate

variable {c : Candidate} {inserted : Text} {n : Nat} {i : Inserted}

/-! ## What is inserted -/

/-- A snippet of the table, or a candidate of another kind. -/
def IsKnown (c : Candidate) : Prop := c.kind = .snippet → c.text ∈ Vocabulary.snippetNames

instance (c : Candidate) : Decidable c.IsKnown := inferInstanceAs (Decidable (_ → _))

/-- What a candidate inserts. -/
structure Inserts (c : Candidate) (inserted : Text) : Prop where
  function : c.kind = .function → inserted = c.text ++ Text.ofString "()"
  snippet : c.kind = .snippet → (c.text, inserted) ∈ Vocabulary.snippetTable
  other : c.kind ≠ .function → c.kind ≠ .snippet → inserted = c.text

theorem mem_snippetTable_of_snippet? {name template : Text} (h : Vocabulary.snippet? name = some template) :
    (name, template) ∈ Vocabulary.snippetTable := by
  obtain ⟨before, after, htable, _⟩ := List.lookup_eq_some_iff.mp h
  rw [htable]
  exact List.mem_append_right before List.mem_cons_self

theorem snippet?_eq_none_iff {name : Text} : Vocabulary.snippet? name = none ↔ name ∉ Vocabulary.snippetNames := by
  rw [Vocabulary.snippet?, List.lookup_eq_none_iff, Vocabulary.snippetNames]
  simp only [List.mem_map, not_exists, not_and, bne_iff_ne, ne_eq]
  exact ⟨fun h p hp heq => h p hp heq.symm, fun h p hp heq => h p hp heq.symm⟩

theorem anchor_le {template : Text} {anchor : Nat} (h : Text.indexOf? snippetAnchor template = some anchor) :
    anchor + snippetAnchor.length ≤ template.length := by
  obtain ⟨hle, hstands, _⟩ := Text.indexOf?_eq_some_iff.mp h
  have hlength : snippetAnchor.length ≤ (template.drop anchor).length := hstands.length_le
  rw [List.length_drop] at hlength
  omega

/-- A snippet that is not in the table is all that cannot be inserted. -/
theorem insertion_eq_error_iff : c.insertion = .error e ↔ e = .unknownSnippet c.text ∧ ¬c.IsKnown := by
  rw [insertion, IsKnown]
  split
  · rename_i hkind
    simp only [hkind, true_imp_iff]
    split
    · rename_i hnone
      rw [Except.error.injEq, eq_comm, and_iff_left (snippet?_eq_none_iff.mp hnone)]
    · rename_i template hsome
      have hknown : c.text ∈ Vocabulary.snippetNames := by
        rw [← not_not (a := c.text ∈ _), ← snippet?_eq_none_iff, hsome]
        exact Option.some_ne_none template
      refine iff_of_false ?_ fun h => h.2 hknown
      split <;> exact nofun
  · rename_i hkind
    exact iff_of_false nofun fun h => h.2 fun hsnippet => by rw [hkind] at hsnippet; cases hsnippet
  · rename_i hsnippet _
    exact iff_of_false nofun fun h => h.2 fun hkind => absurd hkind hsnippet

theorem inserts_of_insertion (h : c.insertion = .ok (inserted, n)) : c.Inserts inserted ∧ n ≤ inserted.length := by
  rw [insertion] at h
  split at h
  · rename_i hkind
    have hinserts {template : Text} (hsome : Vocabulary.snippet? c.text = some template) : c.Inserts template :=
      ⟨by simp [hkind], fun _ => mem_snippetTable_of_snippet? hsome, fun _ hne => absurd hkind hne⟩
    split at h
    · cases h
    · rename_i template hsome
      split at h
      · rename_i anchor hanchor
        cases h
        exact ⟨hinserts hsome, anchor_le hanchor⟩
      · cases h
        exact ⟨hinserts hsome, Nat.le_refl _⟩
  · rename_i hkind
    cases h
    refine ⟨⟨fun _ => rfl, by simp [hkind], fun hne => absurd hkind hne⟩, ?_⟩
    rw [List.length_append]
    exact Nat.add_le_add_left (by decide) _
  · rename_i hsnippet hfunction
    cases h
    exact ⟨⟨fun hkind => absurd hkind hfunction, fun hkind => absurd hkind hsnippet, fun _ _ => rfl⟩,
      Nat.le_refl _⟩

/-! ## The text after an insertion -/

theorem insertAt_eq (hk : k ≤ t.length) (h : c.insertion = .ok (inserted, n)) :
    c.insertAt t k = .ok ⟨stem (t.take k) ++ inserted ++ t.drop k, (stem (t.take k)).length + n⟩ := by
  have hlength := length_stem_add (t.take k)
  have hstart : k - (trailingWord (t.take k)).length = (stem (t.take k)).length := by
    rw [List.length_take, Nat.min_eq_left hk] at hlength
    omega
  rw [insertAt, hstart, take_length_stem, h]
  rfl

theorem insert_finite (hk : k ≤ t.length) : c.insert t (.finite k) = c.insertAt t k := by
  rw [insert, cursorIn_finite, if_pos hk]
  rfl

/-- An insertion that succeeds, as the stem of the word before the cursor, what is inserted and the rest. -/
theorem exists_of_insert (h : c.insert t offset = .ok i) :
    ∃ k inserted n, k ≤ t.length ∧ offset = .finite k ∧ c.insertion = .ok (inserted, n) ∧
      i = ⟨stem (t.take k) ++ inserted ++ t.drop k, (stem (t.take k)).length + n⟩ := by
  cases hcursor : cursorIn t offset with
  | error e =>
    rw [insert, hcursor] at h
    cases h
  | ok k =>
    obtain ⟨hk, rfl⟩ := cursorIn_eq_ok_iff.mp hcursor
    rw [insert_finite hk] at h
    cases hinsertion : c.insertion with
    | error e =>
      rw [insertAt, hinsertion] at h
      cases h
    | ok r =>
      obtain ⟨inserted, n⟩ := r
      rw [insertAt_eq hk hinsertion] at h
      exact ⟨k, inserted, n, hk, rfl, rfl, (Except.ok.inj h).symm⟩

theorem insertAt_eq_error_iff (hk : k ≤ t.length) :
    c.insertAt t k = .error e ↔ e = .unknownSnippet c.text ∧ ¬c.IsKnown := by
  rw [← insertion_eq_error_iff]
  cases hinsertion : c.insertion with
  | error e' => rw [insertAt, hinsertion, Except.error.injEq, ← Except.error.injEq (ε := Refusal)]; rfl
  | ok r =>
    obtain ⟨inserted, n⟩ := r
    rw [insertAt_eq hk hinsertion]
    exact iff_of_false nofun nofun

/-- The two ways in which an insertion can fail. -/
theorem insert_eq_error_iff :
    c.insert t offset = .error e ↔
      (¬t.HasCursor offset ∧ e = .cursorOutside offset t.length) ∨
        t.HasCursor offset ∧ ¬c.IsKnown ∧ e = .unknownSnippet c.text := by
  by_cases hcursor : t.HasCursor offset
  · simp only [hcursor, not_true_eq_false, false_and, true_and, false_or]
    obtain ⟨k, hk, rfl⟩ := hcursor
    rw [insert_finite hk, insertAt_eq_error_iff hk, and_comm]
  · simp only [hcursor, not_false_eq_true, true_and, false_and, or_false]
    rw [insert, cursorIn_eq_error_iff.mpr ⟨rfl, hcursor⟩, ← Except.error.injEq (ε := Refusal), eq_comm]
    rfl

theorem exists_insert (hcursor : t.HasCursor offset) (hknown : c.IsKnown) : ∃ i, c.insert t offset = .ok i := by
  cases hinsert : c.insert t offset with
  | ok i => exact ⟨i, rfl⟩
  | error e =>
    obtain ⟨hnone, _⟩ | ⟨_, hunknown, _⟩ := insert_eq_error_iff.mp hinsert
    · exact absurd hcursor hnone
    · exact absurd hknown hunknown

theorem cursor_le_of_insert (h : c.insert t offset = .ok i) : i.cursor ≤ i.text.length := by
  obtain ⟨k, inserted, n, _, _, hinsertion, rfl⟩ := exists_of_insert h
  have hn := (inserts_of_insertion hinsertion).2
  simp only [List.length_append]
  omega

theorem insertion_of_ne (hfunction : c.kind ≠ .function) (hsnippet : c.kind ≠ .snippet) :
    c.insertion = .ok (c.text, c.text.length) := by
  rw [insertion]
  split
  · exact absurd ‹_› hsnippet
  · exact absurd ‹_› hfunction
  · rfl

theorem insertion_of_function (hfunction : c.kind = .function) :
    c.insertion = .ok (c.text ++ Text.ofString "()", c.text.length + 1) := by
  rw [insertion, hfunction]

/-- What is inserted as a word of its own is the word before the new cursor, so inserting it again replaces it by
itself. -/
theorem insert_again (hfunction : c.kind ≠ .function) (hsnippet : c.kind ≠ .snippet) (hrun : c.text.IsRun)
    (h : c.insert t offset = .ok i) : c.insert i.text (.finite i.cursor) = .ok i := by
  have hword := insertion_of_ne hfunction hsnippet
  obtain ⟨k, inserted, n, hk, rfl, hinsertion, rfl⟩ := exists_of_insert h
  obtain ⟨rfl, rfl⟩ := Prod.mk.inj (Except.ok.inj (hword.symm.trans hinsertion))
  have hbefore : (stem (t.take k) ++ c.text ++ t.drop k).take ((stem (t.take k)).length + c.text.length) =
      stem (t.take k) ++ c.text := by
    rw [← List.length_append, List.take_left]
  have hafter : (stem (t.take k) ++ c.text ++ t.drop k).drop ((stem (t.take k)).length + c.text.length) =
      t.drop k := by
    rw [← List.length_append, List.drop_left]
  have hcursor : (stem (t.take k)).length + c.text.length ≤ (stem (t.take k) ++ c.text ++ t.drop k).length := by
    rw [← List.length_append]
    exact (List.prefix_append _ (t.drop k)).length_le
  rw [insert_finite hcursor, insertAt_eq hcursor hword, hbefore, hafter,
    stem_append (endsOutsideWord_stem _) hrun]

/-! ## Insertions one after the other -/

/-- Inserts candidates one after the other, each where the cursor stands after the one before. -/
def insertAll (cs : List Candidate) (i : Inserted) : Except Refusal Inserted :=
  cs.foldlM (fun i c => c.insert i.text (.finite i.cursor)) i

/-- Insertions go on for as long as the snippets among them are known. -/
theorem insertAll_cases (cs : List Candidate) (hcursor : i.cursor ≤ i.text.length) :
    (∃ i', insertAll cs i = .ok i' ∧ i'.cursor ≤ i'.text.length) ∨
      ∃ c ∈ cs, ¬c.IsKnown ∧ insertAll cs i = .error (.unknownSnippet c.text) := by
  induction cs generalizing i with
  | nil => exact .inl ⟨i, rfl, hcursor⟩
  | cons c cs ih =>
    cases hinsert : c.insert i.text (.finite i.cursor) with
    | error e =>
      obtain ⟨hnone, _⟩ | ⟨_, hunknown, rfl⟩ := insert_eq_error_iff.mp hinsert
      · exact absurd ⟨i.cursor, hcursor, rfl⟩ hnone
      · refine .inr ⟨c, List.mem_cons_self, hunknown, ?_⟩
        rw [insertAll, List.foldlM_cons, hinsert]
        rfl
    | ok i' =>
      have hall : insertAll (c :: cs) i = insertAll cs i' := by
        rw [insertAll, List.foldlM_cons, hinsert]
        rfl
      rw [hall]
      obtain hok | ⟨c', hmem, hunknown⟩ := ih (cursor_le_of_insert hinsert)
      · exact .inl hok
      · exact .inr ⟨c', List.mem_cons_of_mem c hmem, hunknown⟩

end Candidate

/-! ## Insertions of what is offered -/

namespace Offer

variable {symbols : Symbols} {pool : List Candidate}

/-- Whatever the context, there are candidates, and the snippets among them are those of the table. -/
theorem exists_pool (symbols : Symbols) (context : Context) (before : Text) :
    ∃ pool, Offer.pool symbols context before = .ok pool ∧ ∀ c ∈ pool, c.IsKnown := by
  obtain ⟨library, hlibrary, _⟩ := exists_libraryFunctions before
  have hcode : ∃ pool, codePool symbols before = .ok pool ∧ ∀ c ∈ pool, c.IsKnown := by
    refine ⟨_, codePool_eq hlibrary symbols, fun c hc hsnippet => ?_⟩
    simpa [Candidate.mem_ofTexts, hsnippet] using hc
  have hknown {kind : Kind} (hkind : kind ≠ .snippet) (texts : List Text) :
      ∀ c ∈ Candidate.ofTexts kind texts, c.IsKnown := by
    intro c hc hsnippet
    exact absurd ((Candidate.mem_ofTexts.mp hc).1.symm.trans hsnippet) hkind
  cases context with
  | includeLine => exact ⟨_, rfl, hknown (by decide) _⟩
  | directive => exact ⟨_, rfl, hknown (by decide) _⟩
  | member => exact ⟨_, rfl, hknown (by decide) _⟩
  | string => exact hcode
  | comment => exact hcode
  | arguments => exact hcode
  | general => exact hcode

theorem limited_subset (limit : Option Number) (cs : List Candidate) : limited limit cs ⊆ cs := by
  cases limit with
  | none => exact List.Subset.refl cs
  | some n => exact List.take_subset _ cs

end Offer

theorem exists_offer (symbols : Symbols) (options : OfferOptions) (hk : k ≤ t.length) :
    ∃ o, offer symbols options t (.finite k) = .ok o ∧ ∀ c ∈ o.candidates, c.IsKnown := by
  obtain ⟨pool, hpool, hknown⟩ := Offer.exists_pool symbols (Context.atCursor t k) (t.take k)
  refine ⟨_, offer_eq hk hpool options, fun c hc => ?_⟩
  simp only at hc
  split at hc
  · cases hc
  · exact hknown c (Candidate.mem_ranked.mp (Offer.limited_subset _ _ hc)).1

/-! ## The law of insertions -/

/-- What is offered at a cursor in the text can be inserted there. An insertion puts what the candidate stands for
in the place of the word before the cursor, and the new cursor stands in it or at one of its ends. It
fails only where the cursor is not in the text, or for a snippet without a template. So insertions can
follow each other without end, only unknown snippets stop them; and inserting a word again changes
nothing. -/
theorem Candidate.insert_law :
    (∀ (symbols : Symbols) (options : OfferOptions) (t : Text) (k : Nat), k ≤ t.length →
      ∃ o, offer symbols options t (.finite k) = .ok o ∧
        ∀ c ∈ o.candidates, ∃ i, c.insert t (.finite k) = .ok i) ∧
    (∀ (c : Candidate) (t : Text) (offset : Number) (i : Inserted), c.insert t offset = .ok i →
      ∃ k start inserted, k ≤ t.length ∧ offset = .finite (k : Nat) ∧
        (∀ j, IsWordStart t k j ↔ j = start) ∧ c.Inserts inserted ∧
        i.text = t.take start ++ inserted ++ t.drop k ∧
        start ≤ i.cursor ∧ i.cursor ≤ start + inserted.length ∧
        cursorIn i.text (.finite i.cursor) = .ok i.cursor) ∧
    (∀ (c : Candidate) (t : Text) (offset : Number) (e : Refusal), c.insert t offset = .error e ↔
      (¬t.HasCursor offset ∧ e = .cursorOutside offset t.length) ∨
        t.HasCursor offset ∧ ¬c.IsKnown ∧ e = .unknownSnippet c.text) ∧
    (∀ (cs : List Candidate) (i : Inserted), i.cursor ≤ i.text.length →
      (∃ i', Candidate.insertAll cs i = .ok i' ∧ i'.cursor ≤ i'.text.length) ∨
        ∃ c ∈ cs, ¬c.IsKnown ∧ Candidate.insertAll cs i = .error (.unknownSnippet c.text)) ∧
    ∀ (c : Candidate) (t : Text) (offset : Number) (i : Inserted),
      c.kind ≠ .function → c.kind ≠ .snippet → c.text.IsRun → c.insert t offset = .ok i →
        c.insert i.text (.finite i.cursor) = .ok i := by
  refine ⟨fun symbols options t k hk => ?_, fun c t offset i h => ?_, fun _ _ _ _ => insert_eq_error_iff,
    fun cs i hcursor => ?_, fun _ _ _ _ hfunction hsnippet hrun => insert_again hfunction hsnippet hrun⟩
  · obtain ⟨o, ho, hknown⟩ := exists_offer symbols options hk
    exact ⟨o, ho, fun c hc => exists_insert ⟨k, hk, rfl⟩ (hknown c hc)⟩
  · have hcursor := cursor_le_of_insert h
    obtain ⟨k, inserted, n, hk, rfl, hinsertion, rfl⟩ := exists_of_insert h
    obtain ⟨hinserts, hn⟩ := inserts_of_insertion hinsertion
    refine ⟨k, (stem (t.take k)).length, inserted, hk, rfl, fun j => isWordStart_iff hk, hinserts, ?_,
      Nat.le_add_right _ _, Nat.add_le_add_left hn _, cursorIn_eq_ok_iff.mpr ⟨hcursor, rfl⟩⟩
    rw [take_length_stem]
  · exact insertAll_cases cs hcursor

end CCompletion
