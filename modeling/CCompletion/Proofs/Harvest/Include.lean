import CCompletion.Harvest.Include
import CCompletion.Proofs.Source.CodeWord
import CCompletion.Proofs.Text.Lines
import CCompletion.Proofs.Text.Order
import Mathlib.Data.List.Induction
import Mathlib.Data.List.ReduceOption

/-!
# Included headers

The lines of a masked text are the lines of the text, each masked from the region in which it starts. Outside of code
that region leaves no hash at the start of a line, and in code the line keeps all of a directive but the name of
its header. So the headers are those of the directives on lines that start in code.
-/

namespace CCompletion

variable {r : Region} {t line rest last header : Text} {ls : List Text} {u : CodeUnit} {n : Nat}

/-! ## Lines of a masked text -/

namespace Region

/-- A newline is read with the unit before it or alone. -/
theorem readsAlone_newline (r : Region) (rest : Text) : r.ReadsAlone newline rest := by
  intro v _
  cases r <;> rfl

theorem single_newline (r : Region) : (r.single newline).1 = newline := by
  cases r with
  | literal q => rw [single, if_pos (.inr rfl)]
  | _ => rfl

/-- At the end of a line, masking goes on from the region that the line leads to. -/
theorem mask_append_newline (r : Region) (h : newline ∉ line) (rest : Text) :
    r.mask (line ++ newline :: rest) = r.mask line ++ newline :: (r.after (line ++ [newline])).mask rest ∧
      r.after (line ++ newline :: rest) = (r.after (line ++ [newline])).after rest := by
  have hnewline (r : Region) : r.mask (newline :: rest) = newline :: (r.single newline).2.mask rest ∧
      r.after (newline :: rest) = (r.single newline).2.after rest := by
    rw [mask_of_readsAlone (r.readsAlone_newline rest), r.single_newline,
      after_of_readsAlone (r.readsAlone_newline rest)]
    exact ⟨rfl, rfl⟩
  fun_induction mask r line with
  | case1 r => exact hnewline r
  | case2 r u =>
    simp only [List.cons_append, List.nil_append]
    cases hpair : r.pair? u newline with
    | none =>
      have halone (rest : Text) : r.ReadsAlone u (newline :: rest) := fun w hw => Option.some.inj hw ▸ hpair
      rw [mask_of_readsAlone (halone rest), (hnewline _).1, after_of_readsAlone (halone rest), (hnewline _).2,
        after_of_readsAlone (halone [])]
      exact ⟨rfl, rfl⟩
    | some x =>
      obtain ⟨a, b, next⟩ := x
      -- Only a backslash in a literal is read together with the newline behind it.
      obtain ⟨_, _, hslash, _⟩ | ⟨_, _, hstar, _⟩ | ⟨_, _, hslash, _⟩ | ⟨q, rfl, rfl, rfl, rfl, rfl⟩ := pair_cases hpair
      · cases hslash
      · cases hstar
      · cases hslash
      · rw [mask_of_pair hpair, after_of_pair hpair, after_of_pair hpair]
        cases q <;> exact ⟨rfl, rfl⟩
  | case3 r u v line a b next hpair ih =>
    simp only [List.mem_cons, not_or] at h
    simp only [List.cons_append]
    rw [mask_of_pair hpair, after_of_pair hpair, after_of_pair hpair, (ih h.2.2).1, (ih h.2.2).2]
    exact ⟨rfl, rfl⟩
  | case4 r u v line hnone ih =>
    rw [List.mem_cons, not_or] at h
    have halone (rest : Text) : r.ReadsAlone u (v :: rest) := fun w hw => Option.some.inj hw ▸ hnone
    have hrest := ih h.2
    simp only [List.cons_append] at hrest ⊢
    rw [mask_of_readsAlone (halone _), after_of_readsAlone (halone _), after_of_readsAlone (halone _), hrest.1, hrest.2]
    exact ⟨rfl, rfl⟩

theorem newline_notMem_mask (r : Region) (h : newline ∉ t) : newline ∉ r.mask t := by
  intro hmem
  obtain ⟨i, hi⟩ := List.mem_iff_getElem?.mp hmem
  exact h (List.mem_of_getElem? ((r.getElem?_mask_eq_newline_iff t i).mp hi))

/-- The lines of a masked text are the lines of the text, each masked from the region in which it starts. -/
theorem getElem?_lines_mask (r : Region) (t : Text) (n : Nat) :
    (r.mask t).lines[n]? = t.lines[n]?.map fun line => (r.after (Text.closed (t.lines.take n))).mask line := by
  obtain ⟨ls, last, rfl, hls, hlast⟩ := Text.exists_closed_append_eq t
  rw [Text.lines_closed_append hls, Text.lines_of_notMem hlast]
  -- By induction on the whole lines; each leads to the region in which the next one starts.
  induction ls generalizing r n with
  | nil =>
    rw [Text.closed, List.flatMap_nil, List.nil_append, Text.lines_of_notMem (r.newline_notMem_mask hlast)]
    cases n with
    | zero => rfl
    | succ n => rfl
  | cons line ls ih =>
    rw [List.forall_mem_cons] at hls
    rw [Text.closed_cons, List.append_assoc, List.cons_append, (r.mask_append_newline hls.1 _).1, Text.lines,
      List.splitOn_append_cons_self_of_not_mem (r.newline_notMem_mask hls.1), ← Text.lines, List.cons_append]
    cases n with
    | zero => rfl
    | succ n =>
      rw [List.getElem?_cons_succ, List.getElem?_cons_succ, ih _ _ hls.2, List.take_succ_cons]
      simp only [Text.closed_cons, (r.mask_append_newline hls.1 (Text.closed ((ls ++ [last]).take n))).2]

/-- Outside of code, what is left of a unit is a blank or a quote. -/
theorem single_outside_code (hr : r ≠ .code) (hu : u ≠ newline) :
    ((r.single u).1 = unit ' ' ∧ (r.single u).2 ≠ .code) ∨ ∃ q : Quote, (r.single u).1 = q.unit := by
  cases r with
  | code => exact absurd rfl hr
  | lineComment => exact .inl ⟨if_neg hu, by rw [single, if_neg hu]; exact Region.noConfusion⟩
  | blockComment => exact .inl ⟨if_neg hu, Region.noConfusion⟩
  | literal q =>
    rw [single]
    split
    · rename_i hends
      exact .inr ⟨q, hends.resolve_right hu⟩
    · exact .inl ⟨rfl, Region.noConfusion⟩

/-- The first unit that is left of a line that starts outside of code is the one that leads back to code. -/
theorem head?_skipBlanks_mask (hr : r ≠ .code) (h : newline ∉ t) :
    ∀ u ∈ (Text.skipBlanks (r.mask t)).head?, u = unit '*' ∨ ∃ q : Quote, u = q.unit := by
  have hquote (q : Quote) (rest : Text) :
      ∀ u ∈ (Text.skipBlanks (q.unit :: rest)).head?, u = unit '*' ∨ ∃ q : Quote, u = q.unit := by
    intro u hu
    cases q with
    | double => exact .inr ⟨.double, (Option.some.inj hu).symm⟩
    | single => exact .inr ⟨.single, (Option.some.inj hu).symm⟩
  fun_induction mask r t with
  | case1 => exact fun u hu => by cases hu
  | case2 r v =>
    rw [List.mem_singleton] at h
    obtain ⟨hblank, _⟩ | ⟨q, hq⟩ := single_outside_code hr (Ne.symm h)
    · rw [hblank]
      exact fun u hu => by cases hu
    · rw [hq]
      exact hquote q []
  | case3 r v v' rest a b next hpair ih =>
    simp only [List.mem_cons, not_or] at h
    obtain ⟨hcode, _⟩ | ⟨hcode, _⟩ | ⟨_, rfl, _, rfl, _⟩ | ⟨q, _, _, rfl, rfl, rfl⟩ := pair_cases hpair
    · exact absurd hcode hr
    · exact absurd hcode hr
    · exact fun u hu => .inl (Option.some.inj hu).symm
    · have hblank : blanked v' = unit ' ' := if_neg (Ne.symm h.2.1)
      rw [hblank]
      exact ih Region.noConfusion h.2.2
  | case4 r v v' rest hnone ih =>
    rw [List.mem_cons, not_or] at h
    obtain ⟨hblank, hnext⟩ | ⟨q, hq⟩ := single_outside_code hr (Ne.symm h.1)
    · rw [hblank]
      exact ih hnext h.2
    · rw [hq]
      exact hquote q _

end Region

/-! ## Directives -/

namespace Harvest

/-- A line that names a header: a hash, the word, and the header between its delimiters, whatever follows. -/
inductive IsDirective (header : Text) : Text → Prop
  | mk {indent gap space behind : Text} {opening closing : CodeUnit} : (∀ u ∈ indent, isBlank u = true) →
      (∀ u ∈ gap, isBlank u = true) → (∀ u ∈ space, isBlank u = true) → (opening = unit '<' ∨ opening = unit '"') →
      header ≠ [] → (∀ u ∈ header, endsTarget u = false) → endsTarget closing = true →
      IsDirective header (indent ++ unit '#' ::
        (gap ++ (Text.ofString "include" ++ (space ++ opening :: (header ++ closing :: behind)))))

theorem exists_of_directive? (h : Context.directive? line = some rest) :
    ∃ indent gap, (∀ u ∈ indent, isBlank u = true) ∧ (∀ u ∈ gap, isBlank u = true) ∧
      line = indent ++ unit '#' :: (gap ++ rest) := by
  obtain ⟨behind, hhash, rfl⟩ := Option.map_eq_some_iff.mp h
  refine ⟨line.takeWhile isBlank, behind.takeWhile isBlank, List.all_eq_true.mp List.all_takeWhile,
    List.all_eq_true.mp List.all_takeWhile, ?_⟩
  rw [Text.skipBlanks, List.takeWhile_append_dropWhile, ← Text.afterUnit?_eq_some_iff.mp hhash, Text.skipBlanks,
    List.takeWhile_append_dropWhile]

theorem directive?_append {indent gap : Text} (hindent : ∀ u ∈ indent, isBlank u = true)
    (hgap : ∀ u ∈ gap, isBlank u = true) (hrest : ∀ u ∈ rest.head?, isBlank u = false) :
    Context.directive? (indent ++ unit '#' :: (gap ++ rest)) = some rest := by
  have hhash : Text.skipBlanks (indent ++ unit '#' :: (gap ++ rest)) = unit '#' :: (gap ++ rest) :=
    Text.dropWhile_append_cons hindent rfl _
  rw [Context.directive?, hhash, Text.afterUnit?_eq_some_iff.mpr rfl, Option.map_some, Text.skipBlanks,
    Text.dropWhile_append_of_head? hgap hrest]

theorem isBlank_head?_include (rest : Text) : ∀ u ∈ (Text.ofString "include" ++ rest).head?, isBlank u = false :=
  fun _ hu => Option.some.inj hu ▸ rfl

theorem isBlank_opening {opening : CodeUnit} (h : opening = unit '<' ∨ opening = unit '"') : isBlank opening = false := by
  obtain rfl | rfl := h <;> rfl

/-- What stands before a delimiter, and the delimiter. -/
theorem exists_of_takeWhile_endsTarget {body : Text}
    (h : body.length ≠ (body.takeWhile fun u => !endsTarget u).length) :
    ∃ closing behind, endsTarget closing = true ∧
      body = (body.takeWhile fun u => !endsTarget u) ++ closing :: behind := by
  have hsplit := List.takeWhile_append_dropWhile (p := fun u => !endsTarget u) (l := body)
  have hfirst := List.head?_dropWhile_not (fun u => !endsTarget u) body
  cases hbehind : body.dropWhile fun u => !endsTarget u with
  | nil =>
    rw [hbehind, List.append_nil] at hsplit
    exact absurd (congrArg List.length hsplit.symm) h
  | cons closing behind =>
    rw [hbehind] at hsplit hfirst
    exact ⟨closing, behind, by simpa using hfirst, hsplit.symm⟩

/-- The header of a line is the one that its directive names. -/
theorem target?_eq_some_iff : target? line = some header ↔ IsDirective header line := by
  constructor
  · intro h
    simp only [target?, Option.bind_eq_bind, Option.bind_eq_some_iff] at h
    obtain ⟨directive, hdirective, argument, hargument, opening, hopening, hheader⟩ := h
    obtain ⟨indent, gap, hindent, hgap, rfl⟩ := exists_of_directive? hdirective
    obtain rfl := Text.after?_eq_some_iff.mp hargument
    split at hheader
    · rename_i hdelimiter
      split at hheader
      · cases hheader
      · rename_i hclosed
        rw [not_or, List.isEmpty_iff] at hclosed
        obtain ⟨closing, behind, hclosing, hbody⟩ := exists_of_takeWhile_endsTarget hclosed.2
        have hunits : ∀ u ∈ header, endsTarget u = false := by
          intro u hu
          rw [← Option.some.inj hheader] at hu
          simpa using List.all_eq_true.mp List.all_takeWhile u hu
        rw [Option.some.inj hheader] at hclosed hbody
        have hargument : argument = argument.takeWhile isBlank ++ opening :: (header ++ closing :: behind) := by
          rw [← hbody, List.drop_one, List.cons_head?_tail hopening, Text.skipBlanks, List.takeWhile_append_dropWhile]
        rw [hargument]
        exact .mk hindent hgap (List.all_eq_true.mp List.all_takeWhile) hdelimiter hclosed.1 hunits hclosing
    · cases hheader
  · rintro ⟨hindent, hgap, hspace, hdelimiter, hne, hheader, hclosing⟩
    rename_i indent gap space behind opening closing
    have hargument : Text.skipBlanks (space ++ opening :: (header ++ closing :: behind)) =
        opening :: (header ++ closing :: behind) :=
      Text.dropWhile_append_cons hspace (isBlank_opening hdelimiter) _
    have htarget : (header ++ closing :: behind).takeWhile (fun u => !endsTarget u) = header := by
      rw [List.takeWhile_append_of_pos fun u hu => by rw [hheader u hu]; rfl,
        List.takeWhile_cons_of_neg (by rw [hclosing]; exact Bool.false_ne_true), List.append_nil]
    have hlength : (header ++ closing :: behind).length ≠ header.length := by
      rw [List.length_append, List.length_cons]
      omega
    rw [target?, directive?_append hindent hgap (isBlank_head?_include _)]
    simp only [Option.bind_eq_bind, Option.bind_some, Text.after?_eq_some_iff.mpr rfl, hargument, List.head?_cons,
      if_pos hdelimiter, List.drop_one, List.tail_cons, htarget, List.isEmpty_iff, hne, hlength, or_self, if_false]

/-! ## Directives in the code -/

/-- Masking leaves a directive as far as the delimiter in front of its header. -/
theorem IsDirective.isIncludeLine (h : IsDirective header line) :
    Context.isIncludeLine (Region.code.mask line) = true := by
  cases h with
  | @mk indent gap space behind opening closing hindent hgap hspace hdelimiter _ _ _ =>
    have hopening : isIdentifierUnit opening = false := by obtain rfl | rfl := hdelimiter <;> rfl
    have hblank {blanks : Text} (hblanks : ∀ u ∈ blanks, isBlank u = true) : ∀ u ∈ blanks, Region.OpensNothing u :=
      fun u hu => Region.opensNothing_of_isBlankOrStar (Text.isBlankOrStar_of_isBlank (hblanks u hu))
    have hword : ∀ u ∈ Text.ofString "include", Region.OpensNothing u := fun u hu =>
      Region.opensNothing_of_isIdentifierUnit (List.all_eq_true.mp (by decide) u hu)
    have hhash : ∀ u ∈ [unit '#'], Region.OpensNothing u := fun u hu => List.mem_singleton.mp hu ▸ (by decide)
    have hmask (rest : Text) :
        Region.code.mask (indent ++ unit '#' :: (gap ++ (Text.ofString "include" ++ (space ++ rest)))) =
        indent ++ unit '#' :: (gap ++ (Text.ofString "include" ++ (space ++ Region.code.mask rest))) := by
      rw [Region.mask_code_append (hblank hindent), ← List.singleton_append, Region.mask_code_append hhash,
        Region.mask_code_append (hblank hgap), Region.mask_code_append hword, Region.mask_code_append (hblank hspace)]
      rfl
    have hbehind : Text.startsInWord (space ++ Region.code.mask (opening :: (header ++ closing :: behind))) = false := by
      refine Text.startsInWord_blanks_append hspace ?_
      rw [Text.startsInWord_eq_false_iff, Region.head?_mask_code]
      exact fun u hu => Option.some.inj hu ▸ hopening
    rw [Context.isIncludeLine, hmask, directive?_append hindent hgap (isBlank_head?_include _), Option.bind_some,
      Text.afterWord?, if_neg Bool.false_ne_true, Text.after?_eq_some_iff.mpr rfl, Option.filter_some, hbehind]
    rfl

/-- Outside of code, no directive is left of a line. -/
theorem isIncludeLine_mask_eq_false (hr : r ≠ .code) (h : newline ∉ line) :
    Context.isIncludeLine (r.mask line) = false := by
  have hdirective : Context.directive? (r.mask line) = none := by
    have hhead := Region.head?_skipBlanks_mask hr h
    cases hhash : Text.skipBlanks (r.mask line) with
    | nil => rw [Context.directive?, hhash]; rfl
    | cons u rest =>
      rw [hhash] at hhead
      have hu : u ≠ unit '#' := by
        obtain rfl | ⟨q, rfl⟩ := hhead u rfl
        · decide
        · cases q <;> decide
      rw [Context.directive?, hhash, Text.afterUnit?, if_neg hu]
      rfl
  rw [Context.isIncludeLine, hdirective]
  rfl

/-- A line gives its header when it starts in code. -/
theorem lineTarget?_mask_eq_some_iff (h : newline ∉ line) :
    lineTarget? (r.mask line) line = some header ↔ r = .code ∧ IsDirective header line := by
  by_cases hr : r = .code
  · subst hr
    rw [lineTarget?, ← target?_eq_some_iff, eq_self, true_and]
    split
    · rfl
    · rename_i hplain
      refine iff_of_false (fun h => by cases h) fun htarget => hplain ?_
      exact (target?_eq_some_iff.mp htarget).isIncludeLine
  · rw [lineTarget?, isIncludeLine_mask_eq_false hr h, if_neg Bool.false_ne_true]
    exact iff_of_false (fun h => by cases h) fun hcode => hr hcode.1

/-! ## Harvested headers -/

/-- The line with this number starts in code, and is a directive that names the header. -/
def IncludesAt (t : Text) (n : Nat) (header : Text) : Prop :=
  ∃ line, t.lines[n]? = some line ∧ IsDirective header line ∧ Region.code.after (Text.closed (t.lines.take n)) = .code

theorem getElem?_lineTargets_eq_some_iff :
    (List.zipWith lineTarget? (maskNonCode t).lines t.lines)[n]? = some (some header) ↔ IncludesAt t n header := by
  rw [List.getElem?_zipWith, maskNonCode, Region.getElem?_lines_mask, IncludesAt]
  cases hline : t.lines[n]? with
  | none => exact iff_of_false (fun h => by cases h) (by rintro ⟨_, h, _⟩; cases h)
  | some line =>
    have hnewline := Text.newline_notMem_of_mem_lines (List.mem_of_getElem? hline)
    simp only [Option.map_some, Option.some.injEq, lineTarget?_mask_eq_some_iff hnewline, exists_eq_left', and_comm]

/-- What is appended comes behind all that is there. -/
theorem lt_of_getElem?_append {β : Type} {as : List β} {x : β} {i : Nat} (hi : i < as.length)
    (h : ∀ j : Nat, as[j]? = some x → i < j) (bs : List β) : ∀ j : Nat, (as ++ bs)[j]? = some x → i < j := by
  intro j hj
  by_cases hlt : j < as.length
  · exact h j (by rwa [List.getElem?_append_left hlt] at hj)
  · omega

/-- Without repetitions, elements stand in the order of their first occurrences. -/
theorem pairwise_eraseDups_reduceOption {α : Type} [BEq α] [LawfulBEq α] (os : List (Option α)) :
    os.reduceOption.eraseDups.Pairwise fun a b =>
      ∃ i : Nat, os[i]? = some (some a) ∧ ∀ j : Nat, os[j]? = some (some b) → i < j := by
  -- From the end of the list, as an element that is new there comes last.
  induction os using List.reverseRecOn with
  | nil => exact List.Pairwise.nil
  | append_singleton os o ih =>
    have hold : os.reduceOption.eraseDups.Pairwise fun a b =>
        ∃ i : Nat, (os ++ [o])[i]? = some (some a) ∧ ∀ j : Nat, (os ++ [o])[j]? = some (some b) → i < j := by
      refine ih.imp ?_
      rintro a b ⟨i, hi, hfirst⟩
      have hlt : i < os.length := (List.getElem?_eq_some_iff.mp hi).1
      exact ⟨i, by rwa [List.getElem?_append_left hlt], lt_of_getElem?_append hlt hfirst [o]⟩
    rw [List.reduceOption_append, List.eraseDups_append, List.reduceOption_singleton, List.removeAll]
    cases o with
    | none => rwa [Option.toList_none, List.filter_nil, List.eraseDups_nil, List.append_nil]
    | some a =>
      by_cases hin : a ∈ os.reduceOption
      · rwa [Option.toList_some, List.filter_cons_of_neg (by simpa using hin), List.filter_nil, List.eraseDups_nil,
          List.append_nil]
      · rw [Option.toList_some, List.filter_cons_of_pos (by simpa using hin), List.filter_nil, List.eraseDups_cons,
          List.filter_nil, List.eraseDups_nil]
        refine List.pairwise_append.mpr ⟨hold, List.pairwise_singleton _ _, fun b hb c hc => ?_⟩
        obtain rfl := List.mem_singleton.mp hc
        rw [List.mem_eraseDups, List.reduceOption_mem_iff] at hb
        obtain ⟨i, hi⟩ := List.mem_iff_getElem?.mp hb
        have hlt : i < os.length := (List.getElem?_eq_some_iff.mp hi).1
        have hnew : ∀ j : Nat, os[j]? = some (some c) → i < j := fun j hj =>
          absurd (List.reduceOption_mem_iff.mpr (List.mem_of_getElem? hj)) hin
        exact ⟨i, by rwa [List.getElem?_append_left hlt], lt_of_getElem?_append hlt hnew [some c]⟩

/-- The headers of a text are those that directives on lines that start in code name, each once, in the order of the
first such lines. -/
theorem includes_directives (t : Text) :
    (includes t).Nodup ∧ (∀ header, header ∈ includes t ↔ ∃ n, IncludesAt t n header) ∧
    (includes t).Pairwise fun header header' => ∃ n, IncludesAt t n header ∧ ∀ n', IncludesAt t n' header' → n < n' := by
  refine ⟨nodup_eraseDups _, fun header => ?_, ?_⟩
  · rw [includes, List.mem_eraseDups, List.reduceOption_mem_iff, List.mem_iff_getElem?]
    simp only [getElem?_lineTargets_eq_some_iff]
  · have hsorted := pairwise_eraseDups_reduceOption (List.zipWith lineTarget? (maskNonCode t).lines t.lines)
    simp only [getElem?_lineTargets_eq_some_iff] at hsorted
    exact hsorted

/-- Directives in a comment and on the continued line of a literal are none. -/
example : includes "/*\n#include <a.h>\n*/ 'x\\\n#include <b.h>\n#include <c.h>\n#include <c.h>" =
    [Text.ofString "c.h"] := by
  decide +kernel

end Harvest
end CCompletion
