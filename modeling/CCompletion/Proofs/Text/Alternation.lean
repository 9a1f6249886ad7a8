import CCompletion.Proofs.Text.Leading
import CCompletion.Text.Alternation
import Mathlib.Data.List.Basic

/-!
# Alternations

Each word of an alternation is put together from its pieces, and none of them is longer than a word. So short words can
always be searched for, and a long one that begins like hardly any other cannot.
-/

namespace CCompletion.Text

variable {u : CodeUnit} {s t word piece rest : Text} {ts words stretch : List Text}

/-! ## Starts in common -/

theorem sharedStart_isPrefix_left (s t : Text) : sharedStart s t <+: s := by
  induction s generalizing t with
  | nil => exact List.nil_prefix
  | cons u s ih =>
    cases t with
    | nil => exact List.nil_prefix
    | cons v t =>
      rw [sharedStart]
      split
      · exact List.cons_prefix_cons.mpr ⟨rfl, ih t⟩
      · exact List.nil_prefix

theorem sharedStart_isPrefix_right (s t : Text) : sharedStart s t <+: t := by
  induction s generalizing t with
  | nil => exact List.nil_prefix
  | cons u s ih =>
    cases t with
    | nil => exact List.nil_prefix
    | cons v t =>
      rw [sharedStart]
      split
      · rename_i huv
        exact List.cons_prefix_cons.mpr ⟨huv, ih t⟩
      · exact List.nil_prefix

theorem foldl_sharedStart_isPrefix (s : Text) (ts : List Text) :
    ts.foldl sharedStart s <+: s ∧ ∀ t ∈ ts, ts.foldl sharedStart s <+: t := by
  induction ts generalizing s with
  | nil => exact ⟨List.prefix_refl s, nofun⟩
  | cons t ts ih =>
    obtain ⟨hstart, hothers⟩ := ih (sharedStart s t)
    refine ⟨hstart.trans (sharedStart_isPrefix_left s t), fun t' ht' => ?_⟩
    obtain rfl | ht' := List.mem_cons.mp ht'
    · exact hstart.trans (sharedStart_isPrefix_right s t')
    · exact hothers t' ht'

theorem commonStart_isPrefix (h : t ∈ ts) : commonStart ts <+: t := by
  cases ts with
  | nil => cases h
  | cons first ts =>
    obtain ⟨hfirst, hothers⟩ := foldl_sharedStart_isPrefix first ts
    obtain rfl | h := List.mem_cons.mp h
    · exact hfirst
    · exact hothers t h

/-! ## Pieces -/

theorem mem_behind : rest ∈ behind u words ↔ u :: rest ∈ words := by
  rw [behind, List.mem_filterMap]
  constructor
  · rintro ⟨word, hword, hrest⟩
    rwa [← afterUnit?_eq_some_iff.mp hrest]
  · exact fun h => ⟨u :: rest, h, afterUnit?_eq_some_iff.mpr rfl⟩

theorem exists_stretch (h : word ∈ words) (hne : word ≠ []) : ∃ stretch ∈ stretches words, word ∈ stretch := by
  induction words with
  | nil => cases h
  | cons first words ih =>
    rw [stretches] at ih ⊢
    obtain ⟨stretch, others, hsplit⟩ := List.exists_cons_of_ne_nil (List.splitOn_ne_nil ([] : Text) words)
    rw [List.splitOn_cons_eq_if_modifyHead, hsplit, List.modifyHead_cons]
    rw [hsplit] at ih
    obtain rfl | h := List.mem_cons.mp h
    · rw [if_neg (by rwa [beq_iff_eq])]
      exact ⟨word :: stretch, List.mem_cons_self, List.mem_cons_self⟩
    · obtain ⟨found, hfound, hword⟩ := ih h
      split
      · exact ⟨found, List.mem_cons_of_mem _ hfound, hword⟩
      · obtain rfl | hfound := List.mem_cons.mp hfound
        · exact ⟨first :: found, List.mem_cons_self, List.mem_cons_of_mem _ hword⟩
        · exact ⟨found, List.mem_cons_of_mem _ hfound, hword⟩

/-- The pieces of the words in one stretch that begin with `u`. -/
def piecesBehind (u : CodeUnit) (stretch : List Text) : List Text :=
  if (behind u stretch).length ≤ 2 then (behind u stretch).map (u :: ·)
  else
    (u :: commonStart (behind u stretch)) ::
      pieces ((behind u stretch).map (·.drop (commonStart (behind u stretch)).length))

theorem mem_pieces_iff :
    piece ∈ pieces words ↔
      ∃ stretch ∈ stretches words, ∃ u, behind u stretch ≠ [] ∧ piece ∈ piecesBehind u stretch := by
  have hstart (stretch : List Text) (u : CodeUnit) :
      u ∈ stretch.filterMap List.head? ↔ behind u stretch ≠ [] := by
    rw [List.mem_filterMap]
    constructor
    · rintro ⟨word, hword, hhead⟩
      obtain ⟨rest, rfl⟩ := List.head?_eq_some_iff.mp hhead
      exact List.ne_nil_of_mem (mem_behind.mpr hword)
    · intro hne
      obtain ⟨rest, hrest⟩ := List.exists_mem_of_ne_nil _ hne
      exact ⟨u :: rest, mem_behind.mp hrest, rfl⟩
  rw [pieces]
  simp only [List.mem_flatMap, List.mem_attach, true_and, Subtype.exists, List.mem_eraseDups, hstart, exists_prop]
  rfl

/-- No piece is longer than a word. -/
theorem exists_isInfix_of_mem_pieces (h : piece ∈ pieces words) : ∃ word ∈ words, piece <:+: word := by
  induction words using pieces.induct with
  | case1 words ih =>
    obtain ⟨stretch, hstretch, u, hne, h⟩ := mem_pieces_iff.mp h
    have hword {tail : Text} (htail : tail ∈ behind u stretch) : u :: tail ∈ words :=
      (sublist_of_mem_stretches hstretch).subset (mem_behind.mp htail)
    rw [piecesBehind] at h
    split at h
    · obtain ⟨tail, htail, rfl⟩ := List.mem_map.mp h
      exact ⟨u :: tail, hword htail, List.infix_refl _⟩
    · rename_i hmany
      obtain rfl | h := List.mem_cons.mp h
      · obtain ⟨tail, htail⟩ := List.exists_mem_of_ne_nil _ hne
        exact ⟨u :: tail, hword htail, (List.cons_prefix_cons.mpr ⟨rfl, commonStart_isPrefix htail⟩).isInfix⟩
      · obtain ⟨suffix, hsuffix, hpiece⟩ := ih stretch hstretch u hmany h
        obtain ⟨tail, htail, rfl⟩ := List.mem_map.mp hsuffix
        refine ⟨u :: tail, hword htail, hpiece.trans ?_⟩
        exact ((List.drop_suffix _ tail).trans (List.suffix_cons u tail)).isInfix

/-- Each word is put together from pieces. -/
theorem exists_flatten_eq (h : word ∈ words) : ∃ ps : List Text, (∀ piece ∈ ps, piece ∈ pieces words) ∧ ps.flatten = word := by
  induction words using pieces.induct generalizing word with
  | case1 words ih =>
    cases word with
    | nil => exact ⟨[], nofun, rfl⟩
    | cons u tail =>
      obtain ⟨stretch, hstretch, hmem⟩ := exists_stretch h (List.cons_ne_nil u tail)
      have htail : tail ∈ behind u stretch := mem_behind.mpr hmem
      have hpieces {piece : Text} (hpiece : piece ∈ piecesBehind u stretch) : piece ∈ pieces words :=
        mem_pieces_iff.mpr ⟨stretch, hstretch, u, List.ne_nil_of_mem htail, hpiece⟩
      rw [piecesBehind] at hpieces
      split at hpieces
      · refine ⟨[u :: tail], fun piece hpiece => hpieces ?_, List.append_nil _⟩
        rw [List.mem_singleton.mp hpiece]
        exact List.mem_map_of_mem htail
      · rename_i hmany
        obtain ⟨suffix, hsuffix⟩ := commonStart_isPrefix htail
        have hdrop : tail.drop (commonStart (behind u stretch)).length = suffix := by
          rw [← hsuffix, List.drop_left]
        obtain ⟨ps, hps, hflatten⟩ := ih stretch hstretch u hmany (List.mem_map.mpr ⟨tail, htail, hdrop⟩)
        refine ⟨(u :: commonStart (behind u stretch)) :: ps, ?_, ?_⟩
        · rw [List.forall_mem_cons]
          exact ⟨hpieces List.mem_cons_self, fun piece hpiece => hpieces (List.mem_cons_of_mem _ (hps piece hpiece))⟩
        · rw [List.flatten_cons, hflatten, List.cons_append, hsuffix]

/-! ## Words that can be searched for -/

theorem fits_of_length_le (h : ∀ word ∈ words, word.length ≤ pieceLimit) : fits words = true := by
  rw [fits, List.all_eq_true]
  intro piece hpiece
  obtain ⟨word, hword, hinfix⟩ := exists_isInfix_of_mem_pieces hpiece
  exact decide_eq_true (Nat.le_trans hinfix.length_le (h word hword))

/-- A word is a piece of its own when at most one other begins with the same unit. -/
theorem mem_pieces_of_few (h : u :: rest ∈ words) (hfew : (behind u words).length ≤ 2) : u :: rest ∈ pieces words := by
  obtain ⟨stretch, hstretch, hmem⟩ := exists_stretch h (List.cons_ne_nil u rest)
  have hrest : rest ∈ behind u stretch := mem_behind.mpr hmem
  have hstretchFew : (behind u stretch).length ≤ 2 :=
    Nat.le_trans ((sublist_of_mem_stretches hstretch).filterMap (afterUnit? u)).length_le hfew
  refine mem_pieces_iff.mpr ⟨stretch, hstretch, u, List.ne_nil_of_mem hrest, ?_⟩
  rw [piecesBehind, if_pos hstretchFew]
  exact List.mem_map_of_mem hrest

theorem fits_eq_false_of_few (h : u :: rest ∈ words) (hfew : (behind u words).length ≤ 2)
    (hlong : pieceLimit ≤ rest.length) : fits words = false := by
  rw [fits, List.all_eq_false]
  refine ⟨u :: rest, mem_pieces_of_few h hfew, ?_⟩
  rw [decide_eq_true_eq, List.length_cons]
  omega

end CCompletion.Text
