import CCompletion.Text.Leading

/-!
Alternations: the choice between several words, put together for a search. Where three or more words in a row
begin alike, what they share is written once and a choice between what follows is made behind it. A piece of
text that is left whole must not be too long, or nothing can be searched for.
-/

namespace CCompletion.Text

/-- What both texts begin with. -/
def sharedStart : Text → Text → Text
  | u :: s, v :: t => if u = v then u :: sharedStart s t else []
  | _, _ => []

/-- What all the texts begin with. -/
def commonStart : List Text → Text
  | [] => []
  | t :: ts => ts.foldl sharedStart t

/-- What follows `u` in the words that begin with it. -/
def behind (u : CodeUnit) (words : List Text) : List Text := words.filterMap (afterUnit? u)

/-- The words in a row up to an empty one, again behind it, and so on. -/
def stretches (words : List Text) : List (List Text) := words.splitOn []

theorem sublist_of_mem_stretches {stretch words : List Text} (h : stretch ∈ stretches words) :
    stretch.Sublist words := by
  induction words generalizing stretch with
  | nil =>
    rw [stretches, List.splitOn_nil, List.mem_singleton] at h
    exact h ▸ List.Sublist.refl _
  | cons word words ih =>
    rw [stretches, List.splitOn_cons_eq_if_modifyHead] at h
    split at h
    · obtain rfl | h := List.mem_cons.mp h
      · exact List.nil_sublist _
      · exact (ih h).cons word
    · obtain ⟨first, others, hsplit⟩ := List.exists_cons_of_ne_nil (List.splitOn_ne_nil ([] : Text) words)
      rw [stretches, hsplit] at ih
      rw [hsplit, List.modifyHead_cons] at h
      obtain rfl | h := List.mem_cons.mp h
      · exact (ih List.mem_cons_self).cons_cons word
      · exact (ih (List.mem_cons_of_mem first h)).cons word

/-- How many units the words have together. -/
def size (words : List Text) : Nat := words.flatten.length

theorem size_cons (word : Text) (words : List Text) : size (word :: words) = word.length + size words := by
  rw [size, size, List.flatten_cons, List.length_append]

theorem size_le_of_sublist {words words' : List Text} (h : words.Sublist words') : size words ≤ size words' := by
  induction h with
  | slnil => exact Nat.le_refl _
  | cons word _ ih => rw [size_cons]; exact Nat.le_trans ih (Nat.le_add_left _ _)
  | cons_cons word _ ih => rw [size_cons, size_cons]; exact Nat.add_le_add_left ih _

theorem size_map_drop_le (n : Nat) (words : List Text) : size (words.map (·.drop n)) ≤ size words := by
  induction words with
  | nil => exact Nat.le_refl _
  | cons word words ih =>
    rw [List.map_cons, size_cons, size_cons]
    exact Nat.add_le_add (List.length_drop ▸ Nat.sub_le _ _) ih

theorem size_behind_add_length_le (u : CodeUnit) (words : List Text) :
    size (behind u words) + (behind u words).length ≤ size words := by
  induction words with
  | nil => exact Nat.le_refl _
  | cons word words ih =>
    rw [size_cons]
    cases hword : afterUnit? u word with
    | none =>
      have hbehind : behind u (word :: words) = behind u words := List.filterMap_cons_none hword
      rw [hbehind]
      omega
    | some rest =>
      have hbehind : behind u (word :: words) = rest :: behind u words := List.filterMap_cons_some hword
      have hlength : word.length = rest.length + 1 := by
        cases word with
        | nil => cases hword
        | cons v word =>
          rw [afterUnit?] at hword
          split at hword
          · rw [← Option.some.inj hword, List.length_cons]
          · cases hword
      rw [hbehind, size_cons, List.length_cons]
      omega

/-- The pieces of text that an alternation is put together from. -/
def pieces (words : List Text) : List Text :=
  (stretches words).attach.flatMap fun ⟨stretch, _⟩ =>
    (stretch.filterMap List.head?).eraseDups.flatMap fun u =>
      let tails := behind u stretch
      if _ : tails.length ≤ 2 then tails.map (u :: ·)
      else
        let shared := commonStart tails
        (u :: shared) :: pieces (tails.map (·.drop shared.length))
termination_by size words
decreasing_by
  have hdrop := size_map_drop_le (commonStart (behind u stretch)).length (behind u stretch)
  have hbehind := size_behind_add_length_le u stretch
  have hsub := size_le_of_sublist (sublist_of_mem_stretches ‹stretch ∈ stretches words›)
  have hmany : 2 < (behind u stretch).length := Nat.not_le.mp ‹¬_ ≤ 2›
  omega

/-- The longest piece that can be searched for. -/
def pieceLimit : Nat := 32767

/-- Can an alternation of the words be searched for? -/
def fits (words : List Text) : Bool := (pieces words).all fun piece => piece.length ≤ pieceLimit

/-- A unit that a search would not take for itself. -/
def isOperator (u : CodeUnit) : Bool := List.contains (ofString ".*+?^$\x7b\x7d()|[]\\") u

/-- A word as it stands in a search. -/
def escaped (word : Text) : Text := word.flatMap fun u => if isOperator u then [unit '\\', u] else [u]

end CCompletion.Text
