import CCompletion.Harvest.Signature
import CCompletion.Harvest.Variable
import CCompletion.Proofs.Source.Lexeme
import CCompletion.Proofs.Source.Reading

/-!
# What comments and literals enclose

Of the body of a comment or literal, the masked text shows its length and its newlines, and nothing else.
Functions, types and variables are harvested from masked texts, so that what a body says is
never harvested.
-/

namespace CCompletion

variable {r : Region} {u : CodeUnit} {before body body' rest t t' : Text}

namespace Region

/-- What opens a comment or literal. -/
def opening : Region → Text
  | .code => []
  | .lineComment => [unit '/', unit '/']
  | .blockComment => [unit '/', unit '*']
  | .literal q => [q.unit]

/-- What closes it. The newline that ends a line comment is not part of it. -/
def closing : Region → Text
  | .code => []
  | .lineComment => []
  | .blockComment => [unit '*', unit '/']
  | .literal q => [q.unit]

/-- The body of a comment or literal: nothing in it is an end, nor protects the end that follows it. Code
encloses nothing. -/
def Encloses : Region → Text → Prop
  | .code, _ => False
  | .lineComment, body => newline ∉ body
  | .blockComment, body => ∀ i, ¬Text.StandsAt "*/" body i
  | .literal q, body => q.unit ∉ body ∧ unit '\\' ∉ body ∧ newline ∉ body

/-- A text with a comment or literal in it. -/
def enclose (r : Region) (before body rest : Text) : Text :=
  before ++ (r.opening ++ (body ++ (r.closing ++ rest)))

theorem Encloses.tail (h : r.Encloses (u :: body)) : r.Encloses body := by
  cases r with
  | code => exact h
  | lineComment => exact List.not_mem_of_not_mem_cons h
  | blockComment => exact fun i => h (i + 1)
  | literal q =>
    obtain ⟨hquote, hbackslash, hnewline⟩ := h
    exact ⟨List.not_mem_of_not_mem_cons hquote, List.not_mem_of_not_mem_cons hbackslash,
      List.not_mem_of_not_mem_cons hnewline⟩

theorem Encloses.take (h : r.Encloses body) (k : Nat) : r.Encloses (body.take k) := by
  have hmem {v : CodeUnit} (hv : v ∉ body) : v ∉ body.take k := fun hmem => hv (List.mem_of_mem_take hmem)
  cases r with
  | code => exact h
  | lineComment => exact hmem h
  | blockComment => exact fun i hi => h i (Text.standsAt_take.mp hi).1
  | literal q => exact ⟨hmem h.1, hmem h.2.1, hmem h.2.2⟩

/-- A unit of a body is blanked, and the automaton stays where it is. -/
theorem Encloses.single_eq (h : r.Encloses (u :: body)) : r.single u = (blanked u, r) := by
  cases r with
  | code => exact h.elim
  | lineComment =>
    have hu : u ≠ newline := (List.ne_of_not_mem_cons h).symm
    rw [single, if_neg hu]
  | blockComment => rfl
  | literal q =>
    have hquote : u ≠ q.unit := (List.ne_of_not_mem_cons h.1).symm
    have hnewline : u ≠ newline := (List.ne_of_not_mem_cons h.2.2).symm
    rw [single, if_neg fun hends => hends.elim hquote hnewline, blanked, if_neg hnewline]

theorem Encloses.readsAlone (h : r.Encloses (u :: body))
    (hrest : r = .blockComment → rest.head? ≠ some (unit '/')) : r.ReadsAlone u (body ++ rest) := by
  cases r with
  | code => exact h.elim
  | lineComment => exact fun _ _ => rfl
  | blockComment =>
    refine readsAlone_blockComment fun hclose => ?_
    -- A star at the end of the body would close the comment together with a slash behind it.
    cases body with
    | nil =>
      have hslash : rest[0]? = some (unit '/') := (Text.standsAt_pair.mp hclose).2
      exact hrest rfl (by rw [List.head?_eq_getElem?, hslash])
    | cons v body =>
      obtain ⟨hstar, hslash⟩ := Text.standsAt_pair.mp hclose
      exact h 0 (Text.standsAt_pair.mpr ⟨hstar, hslash⟩)
  | literal q =>
    have hbackslash : u ≠ unit '\\' := (List.ne_of_not_mem_cons h.2.1).symm
    exact fun _ _ => if_neg hbackslash

/-- A body is blanked, and what follows it is read as if it stood in its place. -/
theorem Encloses.mask_append (h : r.Encloses body)
    (hrest : r = .blockComment → rest.head? ≠ some (unit '/')) :
    r.mask (body ++ rest) = body.map blanked ++ r.mask rest := by
  induction body with
  | nil => rfl
  | cons u body ih =>
    rw [List.cons_append, mask_of_readsAlone (h.readsAlone hrest), h.single_eq, ih h.tail, List.map_cons,
      List.cons_append]

theorem take_enclose (hr : r ≠ .code) (before body rest : Text) :
    (r.enclose before body rest).take (before.length + 1) = before ++ r.opening.take 1 := by
  have hopening : 1 ≤ r.opening.length := by
    cases r with
    | code => exact absurd rfl hr
    | lineComment => decide
    | blockComment => decide
    | literal q => exact Nat.le_refl 1
  rw [enclose, List.take_append, List.take_of_length_le (Nat.le_succ _), Nat.add_sub_cancel_left,
    List.take_append_of_le_length hopening]

theorem mask_opening (hr : r ≠ .code) (t : Text) : code.mask (r.opening ++ t) = r.opening ++ r.mask t := by
  cases r with
  | code => exact absurd rfl hr
  | lineComment => exact mask_of_pair rfl t
  | blockComment => exact mask_of_pair rfl t
  | literal q =>
    have halone : code.ReadsAlone q.unit t := fun v _ => by cases q <;> rfl
    have hsingle : code.single q.unit = (q.unit, .literal q) := by cases q <;> rfl
    rw [opening, List.singleton_append, mask_of_readsAlone halone, hsingle, List.singleton_append]

theorem Encloses.ne_code (h : r.Encloses body) : r ≠ .code := by
  rintro rfl
  exact h

theorem head?_closing_append (r : Region) (rest : Text) (k : Nat) :
    r = .blockComment → ((r.closing ++ rest).take k).head? ≠ some (unit '/') := by
  rintro rfl
  cases k with
  | zero => exact nofun
  | succ k => exact fun h => absurd (Option.some.inj h) (by decide)

theorem Encloses.mask_take (h : r.Encloses body) (rest : Text) {k : Nat} (hk : r.opening.length ≤ k) :
    code.mask ((r.opening ++ (body ++ (r.closing ++ rest))).take k) =
      r.opening ++ ((body.map blanked).take (k - r.opening.length) ++
        r.mask ((r.closing ++ rest).take (k - r.opening.length - (body.map blanked).length))) := by
  -- Where the cut falls into the body, what stands before it is a body as well.
  rw [List.take_append, List.take_of_length_le hk, mask_opening h.ne_code, List.take_append,
    (h.take _).mask_append (head?_closing_append r rest _), List.map_take, List.length_map]

/-- What the body says does not show in the masked form, wherever the text from the opening on is cut. -/
theorem Encloses.mask_take_congr (h : r.Encloses body) (h' : r.Encloses body')
    (hblank : body.map blanked = body'.map blanked) (rest : Text) (k : Nat) :
    code.mask ((r.opening ++ (body ++ (r.closing ++ rest))).take k) =
      code.mask ((r.opening ++ (body' ++ (r.closing ++ rest))).take k) := by
  by_cases hk : r.opening.length ≤ k
  · rw [h.mask_take rest hk, h'.mask_take rest hk, hblank]
  · have hshort : k ≤ r.opening.length := Nat.le_of_not_le hk
    rw [List.take_append_of_le_length hshort, List.take_append_of_le_length hshort]

theorem map_blanked_congr (hlength : body.length = body'.length)
    (hnewlines : ∀ i < body.length, body[i]? = some newline ↔ body'[i]? = some newline) :
    body.map blanked = body'.map blanked := by
  refine List.ext_getElem (by rw [List.length_map, List.length_map, hlength]) fun i hi hi' => ?_
  rw [List.length_map] at hi hi'
  have hnewline : body[i] = newline ↔ body'[i] = newline := by
    have hi := hnewlines i hi
    rwa [List.getElem?_eq_getElem, List.getElem?_eq_getElem, Option.some_inj, Option.some_inj] at hi
  rw [List.getElem_map, List.getElem_map, blanked, blanked]
  simp only [hnewline]

end Region

/-- Where a text opens a comment or literal, what its body says does not show in the masked form of the text, nor
in that of any part of the text before a cursor. -/
theorem maskNonCode_take_congr
    (hopen : (Region.code.readings (r.enclose before body rest))[before.length]? = some ⟨.code, false⟩)
    (h : r.Encloses body) (h' : r.Encloses body')
    (hblank : body.map Region.blanked = body'.map Region.blanked) (k : Nat) :
    maskNonCode ((r.enclose before body rest).take k) =
      maskNonCode ((r.enclose before body' rest).take k) := by
  -- Both texts are read alike up to the first unit of the opening.
  have hopen' : (Region.code.readings (r.enclose before body' rest))[before.length]? =
      some ⟨.code, false⟩ := by
    rw [← hopen]
    refine Region.getElem?_readings_congr ?_
    rw [Region.take_enclose h.ne_code, Region.take_enclose h.ne_code]
  have hmask {body : Text} (hk : before.length < k)
      (hopen : (Region.code.readings (r.enclose before body rest))[before.length]? =
        some ⟨.code, false⟩) :
      maskNonCode ((r.enclose before body rest).take k) =
        Region.code.mask before ++
          Region.code.mask ((r.opening ++ (body ++ (r.closing ++ rest))).take (k - before.length)) := by
    rw [← List.getElem?_take_of_lt hk, ← Region.readings_take] at hopen
    rw [maskNonCode, Region.mask_of_reading hopen, List.take_take, Nat.min_eq_left (Nat.le_of_lt hk),
      List.drop_take, Region.enclose, List.take_left, List.drop_left]
  by_cases hk : before.length < k
  · rw [hmask hk hopen, hmask hk hopen', h.mask_take_congr h' hblank]
  · rw [Region.enclose, Region.enclose, List.take_append_of_le_length (Nat.le_of_not_lt hk),
      List.take_append_of_le_length (Nat.le_of_not_lt hk)]

/-! ## Harvests -/

namespace Harvest

theorem functions_congr (h : maskNonCode t = maskNonCode t') : functions t = functions t' := by
  rw [functions, functionsWithin, h, functions, functionsWithin]

theorem typeNames_congr (h : maskNonCode t = maskNonCode t') : typeNames t = typeNames t' := by
  rw [typeNames, h, typeNames]

theorem declaredVariables_congr (h : maskNonCode t = maskNonCode t') (knownTypes : List Text) :
    declaredVariables t knownTypes = declaredVariables t' knownTypes := by
  rw [declaredVariables, h, declaredVariables]

/-- Where a text opens a comment or literal, the same functions, types and variables are harvested whatever
stands in its body, as long as the body keeps its length and its newlines; and so it is for the
variables declared before any cursor. -/
theorem harvest_of_encloses
    (hopen : (Region.code.readings (r.enclose before body rest))[before.length]? = some ⟨.code, false⟩)
    (hbody : r.Encloses body) (hbody' : r.Encloses body') (hlength : body.length = body'.length)
    (hnewlines : ∀ i < body.length, body[i]? = some newline ↔ body'[i]? = some newline) :
    functions (r.enclose before body rest) = functions (r.enclose before body' rest) ∧
    typeNames (r.enclose before body rest) = typeNames (r.enclose before body' rest) ∧
    ∀ (k : Int) (knownTypes : List Text),
      declaredVariables ((r.enclose before body rest).upTo k) knownTypes =
        declaredVariables ((r.enclose before body' rest).upTo k) knownTypes := by
  have hblank := Region.map_blanked_congr hlength hnewlines
  have hmask := maskNonCode_take_congr hopen hbody hbody' hblank
  have hsame : (r.enclose before body rest).length = (r.enclose before body' rest).length := by
    simp only [Region.enclose, List.length_append, hlength]
  have hwhole : maskNonCode (r.enclose before body rest) = maskNonCode (r.enclose before body' rest) := by
    have hall := hmask (r.enclose before body rest).length
    rwa [List.take_length, hsame, List.take_length] at hall
  refine ⟨functions_congr hwhole, typeNames_congr hwhole, fun k knownTypes => ?_⟩
  have hplace : (r.enclose before body rest).place k = (r.enclose before body' rest).place k := by
    rw [Text.place, Text.place, hsame]
  rw [Text.upTo, Text.upTo, hplace]
  exact declaredVariables_congr (hmask _) knownTypes

/-- A comment in a function, with a prototype in it or with openings of all kinds. -/
theorem harvest_of_encloses_prototype :
    let t := Region.blockComment.enclose "int f(char c) \x7b " " int g(\nvoid); " "\x7d"
    let t' := Region.blockComment.enclose "int f(char c) \x7b " "\"struct\n'x \x7b //" "\x7d"
    (Region.code.readings t)[16]? = some ⟨.code, false⟩ ∧
    Region.blockComment.Encloses " int g(\nvoid); " ∧ Region.blockComment.Encloses "\"struct\n'x \x7b //" ∧
    functions t = [Text.ofString "f"] ∧ functions t = functions t' ∧ typeNames t = typeNames t' ∧
    ∀ (k : Int) (knownTypes : List Text),
      declaredVariables (t.upTo k) knownTypes = declaredVariables (t'.upTo k) knownTypes := by
  intro t t'
  have hopen : (Region.code.readings t)[16]? = some ⟨.code, false⟩ := by decide +kernel
  have hbody : Region.blockComment.Encloses " int g(\nvoid); " :=
    Text.indexOf?_eq_none_iff.mp (by decide +kernel)
  have hbody' : Region.blockComment.Encloses "\"struct\n'x \x7b //" :=
    Text.indexOf?_eq_none_iff.mp (by decide +kernel)
  exact ⟨hopen, hbody, hbody', by decide +kernel,
    harvest_of_encloses hopen hbody hbody' (by decide) (by decide +kernel)⟩

end Harvest
end CCompletion
