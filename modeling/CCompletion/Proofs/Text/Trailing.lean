import CCompletion.Proofs.Text.Leading

/-!
# Readers and the end of a text

Readers take what they know from the start of a text. A unit that belongs to nothing they read stays behind when it
stands at the end, and readers that are put together from such readers leave it there as well.
-/

namespace CCompletion.Text

variable {α β : Type} {x u : CodeUnit} {word t : Text} {read : Text → Option (α × Text)}

/-- Nothing is read of an empty text, and the unit `x` at the end of a text is left there. -/
structure LeavesLast (x : CodeUnit) (read : Text → Option (α × Text)) : Prop where
  nil : read [] = none
  concat (t : Text) : read (t ++ [x]) = (read t).map fun found => (found.1, found.2 ++ [x])

/-! ## What stands at the start -/

theorem startsInWord_concat (hx : isIdentifierUnit x = false) (t : Text) :
    startsInWord (t ++ [x]) = startsInWord t := by
  cases t with
  | nil => exact hx
  | cons u t => rfl

theorem afterUnit?_concat (hx : x ≠ u) (t : Text) : afterUnit? u (t ++ [x]) = (afterUnit? u t).map (· ++ [x]) := by
  cases t with
  | nil => exact if_neg hx
  | cons v t =>
    rw [List.cons_append, afterUnit?, afterUnit?]
    split
    · rfl
    · rfl

theorem leavesLast_afterUnit? (hx : x ≠ u) (a : α) :
    LeavesLast x fun t => (afterUnit? u t).map fun rest => (a, rest) where
  nil := rfl
  concat t := by
    rw [afterUnit?_concat hx]
    cases afterUnit? u t with
    | none => rfl
    | some rest => rfl

theorem after?_concat (h : t ++ [x] ≠ word) : after? word (t ++ [x]) = (after? word t).map (· ++ [x]) := by
  rw [Option.ext_iff]
  intro rest
  rw [after?_eq_some_iff, Option.map_eq_some_iff]
  constructor
  · intro heq
    -- The word is not the whole text, so `x` is the end of what follows the word.
    obtain rfl | ⟨rest, y, rfl⟩ := List.eq_nil_or_concat rest
    · exact absurd (heq.trans (List.append_nil word)) h
    · rw [List.concat_eq_append, ← List.append_assoc] at heq
      obtain ⟨ht, hy⟩ := List.append_inj' heq rfl
      exact ⟨rest, after?_eq_some_iff.mpr ht, by rw [hy, List.concat_eq_append]⟩
  · rintro ⟨rest, hafter, rfl⟩
    rw [after?_eq_some_iff.mp hafter, List.append_assoc]

theorem concat_ne_of_notMem (h : x ∉ word) (t : Text) : t ++ [x] ≠ word := by
  rintro rfl
  exact h (List.mem_append_right t (List.mem_singleton_self x))

theorem afterAny?_concat {words : List Text} (h : ∀ word ∈ words, x ∉ word) (t : Text) :
    afterAny? words (t ++ [x]) = (afterAny? words t).map (· ++ [x]) := by
  induction words with
  | nil => rfl
  | cons word words ih =>
    rw [List.forall_mem_cons] at h
    have hrest := ih h.2
    rw [afterAny?] at hrest
    rw [afterAny?, afterAny?, List.findSome?_cons, List.findSome?_cons, after?_concat (concat_ne_of_notMem h.1 t),
      hrest]
    cases after? word t with
    | none => rfl
    | some rest => rfl

theorem leavesLast_afterWord? (hx : isIdentifierUnit x = false) (hword : x ∉ word) (hne : word ≠ []) (inWord : Bool) :
    LeavesLast x fun t => (afterWord? word inWord t).map fun rest => ((), rest) := by
  cases inWord with
  | true => exact ⟨rfl, fun t => rfl⟩
  | false =>
    constructor
    · have hnone : after? word [] = none := by
        rw [after?, if_neg]
        rw [List.isPrefixOf_iff_prefix, List.prefix_nil]
        exact hne
      show ((after? word []).filter _).map _ = none
      rw [hnone]
      rfl
    · intro t
      show ((after? word (t ++ [x])).filter _).map _ = (((after? word t).filter _).map _).map _
      rw [after?_concat (concat_ne_of_notMem hword t)]
      cases after? word t with
      | none => rfl
      | some rest =>
        rw [Option.map_some, Option.filter_some, Option.filter_some, startsInWord_concat hx]
        split
        · rfl
        · rfl

theorem leavesLast_identifier? (hx : isIdentifierUnit x = false) : LeavesLast x identifier? where
  nil := rfl
  concat t := by
    cases hread : identifier? t with
    | none =>
      cases t with
      | nil =>
        refine if_neg fun hstart => ?_
        rw [isIdentifierUnit_start hstart] at hx
        cases hx
      | cons u t =>
        by_cases hstart : isIdentifierStart u = true
        · rw [identifier?, if_pos hstart] at hread
          cases hread
        · exact if_neg hstart
    | some found =>
      obtain ⟨ht, hname, hrest⟩ := identifier?_eq_some_iff.mp hread
      refine identifier?_eq_some_iff.mpr ⟨?_, hname, ?_⟩
      · rw [ht, List.append_assoc]
      · rw [startsInWord_concat hx, hrest]

/-! ## What stands behind -/

namespace LeavesLast

variable (h : LeavesLast x read)
include h

theorem dropWhile_concat (p : CodeUnit → Bool) (t : Text) :
    read ((t ++ [x]).dropWhile p) = (read (t.dropWhile p)).map fun found => (found.1, found.2 ++ [x]) := by
  induction t with
  | nil =>
    rw [List.nil_append]
    by_cases hx : p x = true
    · rw [List.dropWhile_cons_of_pos hx, List.dropWhile_nil, h.nil]
      rfl
    · rw [List.dropWhile_cons_of_neg hx]
      exact h.concat []
  | cons u t ih =>
    rw [List.cons_append]
    by_cases hu : p u = true
    · rw [List.dropWhile_cons_of_pos hu, List.dropWhile_cons_of_pos hu, ih]
    · rw [List.dropWhile_cons_of_neg hu, List.dropWhile_cons_of_neg hu]
      exact h.concat (u :: t)

theorem behindRun (p : CodeUnit → Bool) : LeavesLast x fun t => read (t.dropWhile p) :=
  ⟨h.nil, h.dropWhile_concat p⟩

theorem afterUnit (hx : x ≠ u) : LeavesLast x fun t => (afterUnit? u t).bind read where
  nil := rfl
  concat t := by
    rw [afterUnit?_concat hx]
    cases afterUnit? u t with
    | none => rfl
    | some rest => exact h.concat rest

theorem afterRun (p : CodeUnit → Bool) : LeavesLast x fun t => (afterRun? p t).bind read where
  nil := rfl
  concat t := by
    have hcons (u : CodeUnit) (t : Text) :
        (afterRun? p (u :: t)).bind read = if p u = true then read (t.dropWhile p) else none := by
      rw [afterRun?]
      by_cases hu : p u = true
      · rw [List.takeWhile_cons_of_pos hu, List.dropWhile_cons_of_pos hu, if_pos hu]
        rfl
      · rw [List.takeWhile_cons_of_neg hu, if_neg hu]
        rfl
    cases t with
    | nil =>
      rw [List.nil_append, hcons, List.dropWhile_nil, h.nil, ite_self]
      rfl
    | cons u t =>
      rw [List.cons_append, hcons, hcons, h.dropWhile_concat]
      split
      · rfl
      · rfl

/-- The word may be the whole text, `x` included; then nothing is left to be read. -/
theorem after (word : Text) : LeavesLast x fun t => (after? word t).bind read where
  nil := by
    cases word with
    | nil => exact h.nil
    | cons u word => rfl
  concat t := by
    by_cases heq : t ++ [x] = word
    · have hwhole : after? word (t ++ [x]) = some [] := by
        rw [after?_eq_some_iff, heq, List.append_nil]
      have hshort : after? word t = none := by
        refine Option.eq_none_iff_forall_ne_some.mpr fun rest hrest => ?_
        have hlength := congrArg List.length (after?_eq_some_iff.mp hrest)
        rw [← heq, List.length_append, List.length_append, List.length_singleton] at hlength
        omega
      rw [hwhole, hshort, Option.bind_some, h.nil]
      rfl
    · rw [after?_concat heq]
      cases after? word t with
      | none => rfl
      | some rest => exact h.concat rest

theorem bind {next : α → Text → Option (β × Text)} (hnext : ∀ a, LeavesLast x (next a)) :
    LeavesLast x fun t => (read t).bind fun found => next found.1 found.2 where
  nil := by rw [h.nil, Option.bind_none]
  concat t := by
    rw [h.concat]
    cases read t with
    | none => rfl
    | some found => exact (hnext found.1).concat found.2

end LeavesLast

end CCompletion.Text
