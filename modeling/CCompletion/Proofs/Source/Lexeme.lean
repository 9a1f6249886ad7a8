import CCompletion.Proofs.Source.Region
import CCompletion.Source.Context

/-!
# Masking by lexemes

A text falls into lexemes when it is cut from the left: comments, literals, and all else unit by unit. The
masked text is that of its lexemes, whose delimiters stay while their bodies are blanked.
-/

namespace CCompletion

/-- A piece of a text. The body of a comment or literal is what stands between its delimiters; `closed` tells
whether the closing one is there. -/
inductive Lexeme where
  | lineComment (body : Text)
  | blockComment (body : Text) (closed : Bool)
  | literal (quote : Quote) (body : Text) (closed : Bool)
  | plain (u : CodeUnit)
deriving DecidableEq, Repr

namespace Lexeme

def closing (closed : Bool) (delimiter : Text) : Text := if closed then delimiter else []

/-- The lexeme with its body as `f` makes it. -/
def write (f : Text → Text) : Lexeme → Text
  | lineComment body => [unit '/', unit '/'] ++ f body
  | blockComment body closed => [unit '/', unit '*'] ++ f body ++ closing closed [unit '*', unit '/']
  | literal q body closed => [q.unit] ++ f body ++ closing closed [q.unit]
  | plain u => [u]

/-- The part of the text that the lexeme is. -/
def text (x : Lexeme) : Text := x.write id

/-- The lexeme with a blank for each unit of its body that is no newline. -/
def masked (x : Lexeme) : Text := x.write (·.map Region.blanked)

/-! ## Cutting -/

/-- What follows two slashes: the comment takes the rest of its line. -/
def lineCommentBefore (t : Text) : Lexeme × Text :=
  (lineComment (t.takeWhile (· ≠ newline)), t.dropWhile (· ≠ newline))

/-- What follows a slash and a star: the comment goes on to the first star and slash. -/
def blockCommentBefore (t : Text) : Lexeme × Text :=
  match Text.indexOf? "*/" t with
  | some i => (blockComment (t.take i) true, t.drop (i + 2))
  | none => (blockComment t false, [])

/-- How many units stand before the quote or newline that ends a literal. A backslash protects the unit after
it, unless it is protected itself. -/
def literalLength (q : Quote) (isProtected : Bool) : Text → Nat
  | [] => 0
  | u :: rest =>
    if (u = q.unit ∨ u = newline) ∧ !isProtected then 0
    else literalLength q (u == unit '\\' && !isProtected) rest + 1

theorem literalLength_of_ends {q : Quote} {u : CodeUnit} (hu : u = q.unit ∨ u = newline) (t : Text) :
    literalLength q false (u :: t) = 0 := by
  rw [literalLength, if_pos ⟨hu, rfl⟩]

theorem literalLength_of_inside {q : Quote} {u : CodeUnit} (hu : ¬(u = q.unit ∨ u = newline))
    (hbackslash : u ≠ unit '\\') (t : Text) :
    literalLength q false (u :: t) = literalLength q false t + 1 := by
  rw [literalLength, if_neg fun h => hu h.1, beq_eq_false_iff_ne.mpr hbackslash]
  rfl

theorem literalLength_of_protected {q : Quote} (hu : ¬(unit '\\' = q.unit ∨ unit '\\' = newline))
    (v : CodeUnit) (t : Text) :
    literalLength q false (unit '\\' :: v :: t) = literalLength q false t + 1 + 1 := by
  rw [literalLength, if_neg fun h => hu h.1, literalLength]
  simp

/-- What follows a quote: the literal takes in its closing quote, but no newline. -/
def literalBefore (q : Quote) (t : Text) : Lexeme × Text :=
  let body := t.take (literalLength q false t)
  match t.drop (literalLength q false t) with
  | [] => (literal q body false, [])
  | u :: rest => if u = q.unit then (literal q body true, rest) else (literal q body false, u :: rest)

/-- The first lexeme of a text that starts with `u`, and what follows the lexeme. -/
def first (u : CodeUnit) (rest : Text) : Lexeme × Text :=
  if u = unit '/' ∧ rest.head? = some (unit '/') then lineCommentBefore rest.tail
  else if u = unit '/' ∧ rest.head? = some (unit '*') then blockCommentBefore rest.tail
  else if u = Quote.double.unit then literalBefore .double rest
  else if u = Quote.single.unit then literalBefore .single rest
  else (plain u, rest)

theorem text_lineCommentBefore (t : Text) :
    (lineCommentBefore t).1.text ++ (lineCommentBefore t).2 = [unit '/', unit '/'] ++ t := by
  simp only [lineCommentBefore, text, write, id, List.append_assoc, List.takeWhile_append_dropWhile]

theorem text_blockCommentBefore (t : Text) :
    (blockCommentBefore t).1.text ++ (blockCommentBefore t).2 = [unit '/', unit '*'] ++ t := by
  unfold blockCommentBefore
  split
  · rename_i i hi
    have hstands : Text.StandsAt "*/" t i := (Text.indexOf?_eq_some_iff.mp hi).2.1
    have hsplit := Text.take_append_drop_of_standsAt hstands
    simp only [text, write, id, closing, if_true, List.append_assoc]
    exact congrArg ([unit '/', unit '*'] ++ ·) hsplit
  · simp only [text, write, id, closing, Bool.false_eq_true, if_false, List.append_nil]

theorem text_literalBefore (q : Quote) (t : Text) :
    (literalBefore q t).1.text ++ (literalBefore q t).2 = [q.unit] ++ t := by
  have hsplit := List.take_append_drop (literalLength q false t) t
  simp only [literalBefore]
  split
  · rename_i hdrop
    rw [hdrop, List.append_nil] at hsplit
    simp only [text, write, id, closing, Bool.false_eq_true, if_false, List.append_nil, hsplit]
  · rename_i u rest hdrop
    split
    · rename_i hu
      rw [hdrop, hu] at hsplit
      simp only [text, write, id, closing, if_true, List.append_assoc]
      exact congrArg ([q.unit] ++ ·) hsplit
    · rw [hdrop] at hsplit
      simp only [text, write, id, closing, Bool.false_eq_true, if_false, List.append_nil,
        List.append_assoc, hsplit]

/-- The first lexeme is what the text starts with. -/
theorem text_first (u : CodeUnit) (rest : Text) :
    (first u rest).1.text ++ (first u rest).2 = u :: rest := by
  unfold first
  split
  · rename_i h
    obtain ⟨rfl, hhead⟩ := h
    rw [text_lineCommentBefore, ← List.cons_head?_tail hhead]
    rfl
  · split
    · rename_i h
      obtain ⟨rfl, hhead⟩ := h
      rw [text_blockCommentBefore, ← List.cons_head?_tail hhead]
      rfl
    · split
      · rename_i h
        rw [text_literalBefore, h, List.singleton_append]
      · split
        · rename_i h
          rw [text_literalBefore, h, List.singleton_append]
        · rfl

theorem text_ne_nil (x : Lexeme) : x.text ≠ [] := by
  cases x <;> simp [text, write]

theorem length_first_lt (u : CodeUnit) (rest : Text) : (first u rest).2.length < (u :: rest).length := by
  have htext := congrArg List.length (text_first u rest)
  have hpos := List.length_pos_iff.mpr (text_ne_nil (first u rest).1)
  rw [List.length_append] at htext
  omega

end Lexeme

/-- The lexemes of a text, cut off from the left one by one. -/
def lexemes : Text → List Lexeme
  | [] => []
  | u :: rest => (Lexeme.first u rest).1 :: lexemes (Lexeme.first u rest).2
termination_by t => t.length
decreasing_by exact Lexeme.length_first_lt u rest

/-- The lexemes are the whole text. -/
theorem flatMap_text_lexemes (t : Text) : (lexemes t).flatMap Lexeme.text = t := by
  fun_induction lexemes t with
  | case1 => rfl
  | case2 u rest ih => rw [List.flatMap_cons, ih, Lexeme.text_first]

/-! ## What the automaton makes of a lexeme -/

namespace Region

theorem mask_lineComment (t : Text) :
    lineComment.mask t =
      (t.takeWhile (· ≠ newline)).map blanked ++ code.mask (t.dropWhile (· ≠ newline)) := by
  induction t with
  | nil => rfl
  | cons u t ih =>
    rw [mask_of_readsAlone (readsAlone_of_pair?_eq_none (fun _ => rfl) t)]
    by_cases hu : u = newline
    · subst hu
      have hcode : code.ReadsAlone newline t := fun _ _ => rfl
      rw [List.takeWhile_cons_of_neg (by decide), List.dropWhile_cons_of_neg (by decide),
        List.map_nil, List.nil_append, mask_of_readsAlone hcode]
      rfl
    · rw [List.takeWhile_cons_of_pos (by simpa using hu), List.dropWhile_cons_of_pos (by simpa using hu),
        List.map_cons, List.cons_append, ← ih, single, if_neg hu]

theorem mask_blockComment (t : Text) :
    blockComment.mask t = match Text.indexOf? "*/" t with
      | some i => (t.take i).map blanked ++ ([unit '*', unit '/'] ++ code.mask (t.drop (i + 2)))
      | none => t.map blanked := by
  induction t with
  | nil => rfl
  | cons u t ih =>
    -- Either the comment is closed here, or the first close is the one found in the rest.
    by_cases hclose : Text.StandsAt "*/" (u :: t) 0
    · have hindex : Text.indexOf? "*/" (u :: t) = some 0 :=
        Text.indexOf?_eq_some_iff.mpr ⟨Nat.zero_le _, hclose, fun j hj => absurd hj (Nat.not_lt_zero j)⟩
      obtain ⟨rest, hrest⟩ := hclose
      have hsplit : u :: t = unit '*' :: unit '/' :: rest := hrest.symm
      have hpair : blockComment.pair? (unit '*') (unit '/') = some (unit '*', unit '/', .code) := rfl
      rw [hindex, hsplit, mask_of_pair hpair]
      rfl
    · have hindex : Text.indexOf? "*/" (u :: t) = (Text.indexOf? "*/" t).map (· + 1) := by
        rw [Text.indexOf?, if_neg fun h => hclose (Text.standsAt_zero.mpr h)]
      rw [mask_of_readsAlone (readsAlone_blockComment hclose), hindex]
      cases hi : Text.indexOf? "*/" t with
      | none => simp [single, ih, hi]
      | some i => simp [single, ih, hi]

theorem mask_code_newline (t : Text) : code.mask (newline :: t) = newline :: code.mask t := by
  have halone : code.ReadsAlone newline t := fun _ _ => rfl
  rw [mask_of_readsAlone halone]
  rfl

theorem mask_literal_of_ends {q : Quote} {u : CodeUnit} (hu : u = q.unit ∨ u = newline) (t : Text) :
    (literal q).mask (u :: t) = u :: code.mask t := by
  have hbackslash : u ≠ unit '\\' := by
    rcases hu with rfl | rfl
    · cases q <;> decide
    · decide
  have halone : (literal q).ReadsAlone u t := fun v _ => by rw [pair?, if_neg hbackslash]
  rw [mask_of_readsAlone halone, single, if_pos hu]

theorem mask_literal_of_inside {q : Quote} {u : CodeUnit} (hu : ¬(u = q.unit ∨ u = newline))
    (hbackslash : u ≠ unit '\\') (t : Text) :
    (literal q).mask (u :: t) = blanked u :: (literal q).mask t := by
  have halone : (literal q).ReadsAlone u t := fun v _ => by rw [pair?, if_neg hbackslash]
  rw [mask_of_readsAlone halone, single, if_neg hu, blanked, if_neg fun h => hu (.inr h)]

theorem mask_literal (q : Quote) (t : Text) :
    (literal q).mask t = (t.take (Lexeme.literalLength q false t)).map blanked ++
      match t.drop (Lexeme.literalLength q false t) with
      | [] => []
      | u :: rest => if u = q.unit then q.unit :: code.mask rest else code.mask (u :: rest) := by
  -- On the length, as a backslash takes two units at once.
  induction hlength : t.length using Nat.strongRecOn generalizing t with
  | ind n ih =>
    cases t with
    | nil => rfl
    | cons u t =>
      rw [List.length_cons] at hlength
      by_cases hends : u = q.unit ∨ u = newline
      · rw [mask_literal_of_ends hends, Lexeme.literalLength_of_ends hends]
        by_cases hu : u = q.unit
        · simp [hu]
        · obtain rfl := hends.resolve_left hu
          simp [hu, mask_code_newline]
      · by_cases hbackslash : u = unit '\\'
        · subst hbackslash
          have hblank : blanked (unit '\\') = unit ' ' := rfl
          cases t with
          | nil => cases q <;> rfl
          | cons v rest =>
            -- The automaton reads the backslash together with the unit that it protects.
            have hpair : (literal q).pair? (unit '\\') v = some (unit ' ', blanked v, .literal q) := rfl
            rw [List.length_cons] at hlength
            rw [mask_of_pair hpair, Lexeme.literalLength_of_protected hends, ih _ (by omega) rest rfl,
              List.take_succ_cons, List.take_succ_cons, List.drop_succ_cons, List.drop_succ_cons,
              List.map_cons, List.map_cons, hblank]
            rfl
        · rw [mask_literal_of_inside hends hbackslash, Lexeme.literalLength_of_inside hends hbackslash,
            ih _ (by omega) t rfl, List.take_succ_cons, List.drop_succ_cons, List.map_cons]
          rfl

end Region

namespace Lexeme

theorem mask_lineCommentBefore (t : Text) :
    unit '/' :: unit '/' :: Region.lineComment.mask t =
      (lineCommentBefore t).1.masked ++ Region.code.mask (lineCommentBefore t).2 := by
  rw [Region.mask_lineComment]
  simp only [lineCommentBefore, masked, write, List.cons_append, List.nil_append]

theorem mask_blockCommentBefore (t : Text) :
    unit '/' :: unit '*' :: Region.blockComment.mask t =
      (blockCommentBefore t).1.masked ++ Region.code.mask (blockCommentBefore t).2 := by
  rw [Region.mask_blockComment, blockCommentBefore]
  split
  · simp only [masked, write, closing, if_true, List.cons_append, List.nil_append, List.append_assoc]
  · simp only [masked, write, closing, Bool.false_eq_true, if_false, List.cons_append,
      List.nil_append, List.append_nil, Region.mask]

theorem mask_literalBefore (q : Quote) (t : Text) :
    q.unit :: (Region.literal q).mask t =
      (literalBefore q t).1.masked ++ Region.code.mask (literalBefore q t).2 := by
  rw [Region.mask_literal]
  simp only [literalBefore]
  split
  · simp only [masked, write, closing, Bool.false_eq_true, if_false, List.cons_append,
      List.nil_append, List.append_nil, Region.mask]
  · split
    · simp only [masked, write, closing, if_true, List.cons_append, List.nil_append,
        List.append_assoc]
    · simp only [masked, write, closing, Bool.false_eq_true, if_false, List.cons_append,
        List.nil_append, List.append_nil]

/-- In code, the automaton masks the first lexeme and is in code again behind it. -/
theorem mask_first (u : CodeUnit) (rest : Text) :
    Region.code.mask (u :: rest) = (first u rest).1.masked ++ Region.code.mask (first u rest).2 := by
  unfold first
  split
  · rename_i h
    obtain ⟨rfl, hhead⟩ := h
    have hpair : Region.code.pair? (unit '/') (unit '/') = some (unit '/', unit '/', .lineComment) := rfl
    rw [← mask_lineCommentBefore, ← Region.mask_of_pair hpair, List.cons_head?_tail hhead]
  · rename_i hline
    split
    · rename_i h
      obtain ⟨rfl, hhead⟩ := h
      have hpair : Region.code.pair? (unit '/') (unit '*') = some (unit '/', unit '*', .blockComment) := rfl
      rw [← mask_blockCommentBefore, ← Region.mask_of_pair hpair, List.cons_head?_tail hhead]
    · rename_i hblock
      -- A unit that opens no comment is read alone, and only a quote leads out of code.
      have halone : Region.code.ReadsAlone u rest := by
        intro v hv
        rw [Region.pair?, if_neg, if_neg]
        · exact fun h => hblock ⟨h.1, h.2 ▸ hv⟩
        · exact fun h => hline ⟨h.1, h.2 ▸ hv⟩
      rw [Region.mask_of_readsAlone halone]
      split
      · rename_i hu
        subst hu
        exact mask_literalBefore .double rest
      · rename_i hdouble
        split
        · rename_i hu
          subst hu
          exact mask_literalBefore .single rest
        · rename_i hsingle
          rw [Region.single, if_neg hdouble, if_neg hsingle]
          rfl

end Lexeme

theorem mask_eq_lexemes (t : Text) : Region.code.mask t = (lexemes t).flatMap Lexeme.masked := by
  fun_induction lexemes t with
  | case1 => rfl
  | case2 u rest ih => rw [List.flatMap_cons, ← ih, Lexeme.mask_first]

/-- Masking a text is masking its lexemes: delimiters stay, as do the units outside comments and literals, and
in the bodies each unit but the newlines becomes a blank. So the masked text has the length and the
newlines of the text, and each of its units is that of the text or a blank. -/
theorem maskNonCode_eq_lexemes (t : Text) :
    (lexemes t).flatMap Lexeme.text = t ∧
    maskNonCode t = (lexemes t).flatMap Lexeme.masked ∧
    (maskNonCode t).length = t.length ∧
    (∀ i : Nat, (maskNonCode t)[i]? = some newline ↔ t[i]? = some newline) ∧
    ∀ (i : Nat) (u : CodeUnit), t[i]? = some u →
      (maskNonCode t)[i]? = some u ∨ (maskNonCode t)[i]? = some (unit ' ') := by
  refine ⟨flatMap_text_lexemes t, mask_eq_lexemes t, length_maskNonCode t,
    Region.getElem?_mask_eq_newline_iff .code t, fun i u hu => ?_⟩
  obtain ⟨m, hm, rfl | ⟨rfl, _⟩⟩ := Region.exists_masks_of_getElem? .code hu
  · exact .inl hm
  · exact .inr hm

/-- The slash behind the opening of a block comment does not close it, nor does a protected quote its literal. -/
example : lexemes "/*/x*/\"\\\"y\"z" =
    [.blockComment "/x" true, .literal .double "\\\"y" true, .plain (unit 'z')] := by
  cbv

end CCompletion
