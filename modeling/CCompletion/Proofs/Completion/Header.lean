import CCompletion.Proofs.Completion.Insertion
import CCompletion.Proofs.Source.CodeWord
import CCompletion.Proofs.Source.Typing
import CCompletion.Proofs.Text.Lines
import Mathlib.Data.List.ReduceOption

/-!
# Headers that are inserted

On an include line, headers are offered that match the word before the cursor, and one that is inserted takes the
place of that word alone. So a path that has been typed as far as its last word stays in front of the header.
-/

namespace CCompletion

variable {t line typed opening header : Text} {k : Nat} {events : List ScanEvent} {symbols : Symbols}
  {options : OfferOptions} {mode : MatchMode} {o : Offer} {c : Candidate}

/-! ## The names of headers -/

namespace Harvest

/-- The header that a line names is written in it. -/
theorem sublist_of_target? (h : target? line = some header) : header.Sublist line := by
  simp only [target?, Option.bind_eq_bind, Option.bind_eq_some_iff] at h
  obtain ⟨directive, hdirective, argument, hargument, u, _, hbody⟩ := h
  obtain ⟨rest, hhash, rfl⟩ := Option.map_eq_some_iff.mp hdirective
  have hrest : rest.Sublist line := by
    have hline : (unit '#' :: rest).Sublist line := by
      rw [← Text.afterUnit?_eq_some_iff.mp hhash]
      exact List.dropWhile_sublist _
    exact (List.sublist_cons_self _ _).trans hline
  have hafter : argument.Sublist rest := by
    have hskip : (Text.ofString "include" ++ argument).Sublist rest := by
      rw [← Text.after?_eq_some_iff.mp hargument]
      exact List.dropWhile_sublist _
    exact (List.sublist_append_right _ _).trans hskip
  have hheader : header.Sublist argument := by
    split at hbody
    · split at hbody
      · cases hbody
      · rw [← Option.some.inj hbody]
        exact (List.takeWhile_sublist _).trans ((List.drop_sublist _ _).trans (List.dropWhile_sublist _))
    · cases hbody
  exact hheader.trans (hafter.trans hrest)

theorem newline_notMem_of_mem_includes (h : header ∈ includes t) : newline ∉ header := by
  rw [includes, List.mem_eraseDups, List.reduceOption_mem_iff, ← List.map_uncurry_zip_eq_zipWith] at h
  obtain ⟨⟨masked, line⟩, hpair, htarget⟩ := List.mem_map.mp h
  have hline := Text.newline_notMem_of_mem_lines (List.of_mem_zip hpair).2
  simp only [Function.uncurry_apply_pair, lineTarget?] at htarget
  split at htarget
  · exact fun hmem => hline ((sublist_of_target? htarget).subset hmem)
  · cases htarget

end Harvest

theorem newline_notMem_of_mem_headers (h : header ∈ (({} : ScanQueue).run events).visible.symbols.headers) :
    newline ∉ header := by
  obtain ⟨scans, hserves, _⟩ := ScanQueue.exists_serves events
  have hheader : header ∈ (lastTable scans).headers := hserves.visible_eq ▸ h
  obtain ⟨_, _, file, _, hfile⟩ := mem_headers_lastTable.mp hheader
  exact Harvest.newline_notMem_of_mem_includes hfile

theorem newline_notMem_of_mem_standardHeaders (h : header ∈ Vocabulary.standardHeaders) : newline ∉ header := by
  have hall : ∀ header ∈ Vocabulary.standardHeaders, newline ∉ header := by decide +kernel
  exact hall header h

/-! ## Include lines -/

/-- An include line as far as the bracket that opens the header. -/
inductive IsIncludeOpening : Text → Prop
  | mk {indent gap space : Text} : (∀ u ∈ indent, isBlank u = true) → (∀ u ∈ gap, isBlank u = true) →
      (∀ u ∈ space, isBlank u = true) →
      IsIncludeOpening (indent ++ unit '#' :: (gap ++ (Text.ofString "include" ++ (space ++ [unit '<']))))

theorem IsIncludeOpening.endsOutsideWord (h : IsIncludeOpening opening) : opening.EndsOutsideWord := by
  cases h with
  | @mk indent gap space _ _ _ =>
    simp only [← List.append_assoc, ← List.cons_append]
    exact Text.endsOutsideWord_concat _ rfl

theorem IsIncludeOpening.ne_nil (h : IsIncludeOpening opening) : opening ≠ [] := by
  cases h
  exact List.append_ne_nil_of_right_ne_nil _ (List.cons_ne_nil _ _)

/-- Before a word on the last line stand the opening of the line and what has been typed before the word. -/
theorem lastLine_stem (hopening : IsIncludeOpening opening) (hline : lastLine t = opening ++ typed) :
    lastLine (stem t) = opening ++ stem typed := by
  obtain ⟨lines, hlines⟩ := exists_append_lastLine t
  -- The bracket keeps the word from reaching into the opening.
  have hends : Text.EndsOutsideWord (lines ++ (opening ++ stem typed)) := by
    by_cases hstem : stem typed = []
    · rw [hstem, List.append_nil]
      exact Text.endsOutsideWord_append hopening.endsOutsideWord hopening.ne_nil lines
    · rw [← List.append_assoc]
      exact Text.endsOutsideWord_append (endsOutsideWord_stem typed) hstem (lines ++ opening)
  have hword : trailingWord t = trailingWord typed := by
    rw [hlines, hline]
    conv_lhs => rw [← stem_append_trailingWord typed]
    rw [← List.append_assoc opening, ← List.append_assoc lines, trailingWord_append hends (isRun_trailingWord typed)]
  have hlast : lastLine (stem t) ++ trailingWord t = lastLine t := by
    rw [← lastLine_append ((isRun_trailingWord t).notMem (by decide)), stem_append_trailingWord]
  rw [hline, hword] at hlast
  conv_rhs at hlast => rw [← stem_append_trailingWord typed, ← List.append_assoc]
  exact List.append_cancel_right hlast

/-! ## Insertions on include lines -/

theorem offer_includeLine (symbols : Symbols) (options : OfferOptions)
    (hclassify : classify t (.finite k) = .ok .includeLine) :
    offer symbols options t (.finite k) = .ok {
      context := .includeLine
      typed := wordBefore t k
      candidates :=
        if (wordBefore t k).isEmpty then []
        else Offer.limited options.limit (Candidate.ranked options.mode (wordBefore t k)
          (Candidate.ofTexts .header (Vocabulary.standardHeaders ++ symbols.headers))) } := by
  obtain ⟨hk, hcontext⟩ := classify_finite_eq_ok_iff.mp hclassify
  have hpool : Offer.pool symbols (Context.atCursor t k) (t.take k) =
      .ok (Candidate.ofTexts .header (Vocabulary.standardHeaders ++ symbols.headers)) := by
    rw [hcontext]
    rfl
  rw [offer_eq hk hpool options, hcontext]
  simp only [reduceCtorEq, false_or]

/-- On an include line, headers are all that is offered. -/
theorem mem_headers_of_mem_offer (hclassify : classify t (.finite k) = .ok .includeLine)
    (ho : offer symbols options t (.finite k) = .ok o) (hc : c ∈ o.candidates) :
    c.kind = .header ∧ (c.text ∈ Vocabulary.standardHeaders ∨ c.text ∈ symbols.headers) := by
  rw [offer_includeLine symbols options hclassify] at ho
  obtain rfl := Except.ok.inj ho
  simp only at hc
  split at hc
  · cases hc
  · have hranked := (Candidate.mem_ranked.mp (Offer.limited_subset _ _ hc)).1
    rwa [Candidate.mem_ofTexts, List.mem_append] at hranked

/-- Where nothing is cut off, all headers are offered that match the word before the cursor. -/
theorem mem_offer_of_mem_headers (hclassify : classify t (.finite k) = .ok .includeLine)
    (ho : offer symbols ⟨mode, none⟩ t (.finite k) = .ok o) (htyped : wordBefore t k ≠ []) (hkind : c.kind = .header)
    (hmem : c.text ∈ Vocabulary.standardHeaders ++ symbols.headers) (hmatches : c.Matches mode (wordBefore t k)) :
    c ∈ o.candidates := by
  rw [offer_includeLine symbols _ hclassify] at ho
  obtain rfl := Except.ok.inj ho
  rw [if_neg (mt List.isEmpty_iff.mp htyped)]
  exact Candidate.mem_ranked.mpr ⟨Candidate.mem_ofTexts.mpr ⟨hkind, hmem⟩, hmatches⟩

/-- A header stands behind what the last word on its line has stood behind. -/
theorem exists_insert_header (hk : k ≤ t.length) (hheader : c.kind = .header)
    (hnewline : newline ∉ c.text) :
    ∃ i, c.insert t (.finite k) = .ok i ∧ lastLine (i.text.take i.cursor) = lastLine (stem (t.take k)) ++ c.text := by
  have hinsertion := c.insertion_of_ne (by rw [hheader]; decide) (by rw [hheader]; decide)
  refine ⟨_, (c.insert_finite hk).trans (c.insertAt_eq hk hinsertion), ?_⟩
  rw [← List.length_append, List.take_left, lastLine_append hnewline]

/-- Behind a header that has been inserted, the line before the cursor has its opening, what was typed before the
last word, and the header. So nothing is left of what was typed exactly when it was a single word. No
header that scans have found breaks the line. -/
theorem insert_header (hclassify : classify t (.finite k) = .ok .includeLine) (hopening : IsIncludeOpening opening)
    (hline : lastLine (t.take k) = opening ++ typed) :
    (∀ (symbols : Symbols) (options : OfferOptions), (∀ header ∈ symbols.headers, newline ∉ header) →
      ∃ o, offer symbols options t (.finite k) = .ok o ∧
        ∀ c ∈ o.candidates, c.kind = .header ∧ ∃ i, c.insert t (.finite k) = .ok i ∧
          lastLine (i.text.take i.cursor) = opening ++ (stem typed ++ c.text) ∧
          (lastLine (i.text.take i.cursor) = opening ++ c.text ↔ typed.IsRun)) ∧
    ∀ events : List ScanEvent, ∀ header ∈ (({} : ScanQueue).run events).visible.symbols.headers, newline ∉ header := by
  refine ⟨fun symbols options hheaders => ?_, fun events header => newline_notMem_of_mem_headers⟩
  refine ⟨_, offer_includeLine symbols options hclassify, fun c hc => ?_⟩
  obtain ⟨hkind, hmem⟩ := mem_headers_of_mem_offer hclassify (offer_includeLine symbols options hclassify) hc
  have hnewline : newline ∉ c.text := hmem.elim newline_notMem_of_mem_standardHeaders (hheaders c.text)
  obtain ⟨i, hinsert, hlast⟩ := exists_insert_header (classify_finite_eq_ok_iff.mp hclassify).1 hkind hnewline
  rw [lastLine_stem hopening hline, List.append_assoc] at hlast
  refine ⟨hkind, i, hinsert, hlast, ?_⟩
  rw [hlast, List.append_right_inj, List.append_left_eq_self, stem_eq_nil_iff]

theorem isIncludeOpening_plain : IsIncludeOpening "#include <" := by
  have hspace : (Text.ofString " ").all isBlank = true := by decide
  exact .mk (List.forall_mem_nil _) (List.forall_mem_nil _) (List.all_eq_true.mp hspace)

/-- A single word that has been typed gives way to the header. -/
theorem insert_header_word :
    let document : Text := "#include <st"
    classify document (.finite (12 : Nat)) = .ok .includeLine ∧ IsIncludeOpening "#include <" ∧
    lastLine (document.take 12) = Text.ofString "#include <" ++ "st" ∧
    ∃ o, offer {} {} document (.finite (12 : Nat)) = .ok o ∧ ⟨.header, "stdio.h"⟩ ∈ o.candidates ∧
      ∃ i, Candidate.insert ⟨.header, "stdio.h"⟩ document (.finite (12 : Nat)) = .ok i ∧
        lastLine (i.text.take i.cursor) = Text.ofString "#include <" ++ "stdio.h" := by
  intro document
  have hclassify : classify document (.finite (12 : Nat)) = .ok .includeLine :=
    classify_finite_eq_ok_iff.mpr (by decide +kernel)
  have hline : lastLine (document.take 12) = Text.ofString "#include <" ++ "st" := by decide +kernel
  have hrun : Text.IsRun "st" := by
    have hall : (Text.ofString "st").all isIdentifierUnit = true := by decide
    exact List.all_eq_true.mp hall
  have hmatches : (wordBefore document (12 : Nat)).toLower <:+: (Text.ofString "stdio.h").toLower := by decide +kernel
  obtain ⟨o, ho, hcandidates⟩ := (insert_header hclassify isIncludeOpening_plain hline).1 {} {} nofun
  have hmem : ⟨.header, "stdio.h"⟩ ∈ o.candidates :=
    mem_offer_of_mem_headers hclassify ho (by decide +kernel) rfl (by decide +kernel) hmatches
  obtain ⟨_, i, hinsert, _, hword⟩ := hcandidates _ hmem
  exact ⟨hclassify, isIncludeOpening_plain, hline, o, ho, hmem, i, hinsert, hword.mpr hrun⟩

/-- A header that has been typed as far as its last letter is put behind its own first part. -/
theorem insert_header_path :
    let document : Text := "#include <stdio.h"
    classify document (.finite (17 : Nat)) = .ok .includeLine ∧ IsIncludeOpening "#include <" ∧
    lastLine (document.take 17) = Text.ofString "#include <" ++ "stdio.h" ∧
    unit '>' ∉ Text.ofString "stdio.h" ∧ unit '"' ∉ Text.ofString "stdio.h" ∧
    ∃ o, offer (({} : ScanQueue).run []).visible.symbols {} document (.finite (17 : Nat)) = .ok o ∧
      ⟨.header, "stdio.h"⟩ ∈ o.candidates ∧
      ∃ i, Candidate.insert ⟨.header, "stdio.h"⟩ document (.finite (17 : Nat)) = .ok i ∧
        lastLine (i.text.take i.cursor) = "#include <stdio.stdio.h" ∧
        lastLine (i.text.take i.cursor) ≠ Text.ofString "#include <" ++ "stdio.h" := by
  intro document
  have hclassify : classify document (.finite (17 : Nat)) = .ok .includeLine :=
    classify_finite_eq_ok_iff.mpr (by decide +kernel)
  have hmatches : (wordBefore document (17 : Nat)).toLower <:+: (Text.ofString "stdio.h").toLower := by decide +kernel
  have ho := offer_includeLine (({} : ScanQueue).run []).visible.symbols {} hclassify
  have hmem := mem_offer_of_mem_headers (c := ⟨.header, "stdio.h"⟩) hclassify ho (by decide +kernel) rfl
    (by decide +kernel) hmatches
  exact ⟨hclassify, isIncludeOpening_plain, by decide +kernel, by decide +kernel, by decide +kernel, _, ho, hmem,
    ⟨"#include <stdio.stdio.h", 23⟩, by decide +kernel, by decide +kernel, by decide +kernel⟩

end CCompletion
