import CCompletion.Harvest.Variable
import CCompletion.Proofs.Text.Leading

/-!
# Types in front of declared variables

A known type counts where it is a whole word. As a word ends where its run of identifier units ends, at most one
type stands at any place, and it does not matter in which order the known types are tried.
-/

namespace CCompletion

namespace Harvest

variable {types types' : List Text} {type : Text} {inWord : Bool}

theorem atWordEdge_of_isIdentifier (h : type.isIdentifier = true) (inWord : Bool) (rest : Text) :
    atWordEdge inWord type rest = !Text.startsInWord rest := by
  obtain ⟨u, hlast⟩ : ∃ u, type.getLast? = some u := by
    cases type with
    | nil => cases h
    | cons u rest => exact ⟨_, List.getLast?_cons⟩
  have hu : isIdentifierUnit u = true := Text.isRun_of_isIdentifier h u (List.mem_of_getLast? hlast)
  rw [atWordEdge, hlast, Option.map_some, Option.getD_some, hu, Bool.true_bne]

/-- What a text declares behind the word that it starts with. -/
def declaredBehindWord? (t : Text) : Option (Nat × Text) :=
  (declarator? (t.dropWhile isIdentifierUnit)).map (Shape.leaving t)

/-- A type fits where it is the word that the text starts with. -/
theorem typed_eq (h : type.isIdentifier = true) (inWord : Bool) (t : Text) :
    (do
      let rest ← Text.after? type t
      if atWordEdge inWord type rest then return Shape.leaving t (← declarator? rest) else none) =
      if type = t.takeWhile isIdentifierUnit then declaredBehindWord? t else none := by
  split
  · rename_i htype
    have hafter : Text.after? type t = some (t.dropWhile isIdentifierUnit) := by
      rw [Text.after?_eq_some_iff, htype, List.takeWhile_append_dropWhile]
    rw [hafter, Option.bind_eq_bind, Option.bind_some, atWordEdge_of_isIdentifier h,
      Text.startsInWord_dropWhile, if_pos (by rfl)]
    exact Option.map_eq_bind.symm
  · rename_i htype
    cases hafter : Text.after? type t with
    | none => rfl
    | some rest =>
      obtain rfl := Text.after?_eq_some_iff.mp hafter
      -- At a word edge, the type would be the whole run after all.
      rw [Option.bind_eq_bind, Option.bind_some, atWordEdge_of_isIdentifier h, if_neg]
      intro hrest
      rw [Bool.not_eq_true'] at hrest
      exact htype (Text.takeWhile_of_isRun (Text.isRun_of_isIdentifier h) hrest).symm

/-- Where only `w` can give anything, trying all of a list is looking `w` up in it. -/
theorem findSome?_eq_ite {α : Type} {f : Text → Option α} {w : Text} {x : Option α}
    (h : ∀ type ∈ types, f type = if type = w then x else none) :
    types.findSome? f = if w ∈ types then x else none := by
  induction types with
  | nil => rfl
  | cons type types ih =>
    rw [List.findSome?_cons, h type List.mem_cons_self, ih fun t ht => h t (List.mem_cons_of_mem _ ht)]
    by_cases htype : type = w
    · cases x <;> simp [htype]
    · simp [htype, Ne.symm htype]

theorem typedShape_eq (h : ∀ type ∈ types, type.isIdentifier = true) (inWord : Bool) (t : Text) :
    typedShape types inWord t =
      if inWord = Text.startsInWord t then none
      else if t.takeWhile isIdentifierUnit ∈ types then declaredBehindWord? t else none := by
  rw [typedShape, findSome?_eq_ite fun type htype => typed_eq (h type htype) inWord t]

theorem isIdentifier_of_mem_builtinTypes (h : type ∈ Vocabulary.builtinTypes) :
    type.isIdentifier = true := by
  have hall : ∀ type ∈ Vocabulary.builtinTypes, type.isIdentifier = true := by decide +kernel
  exact hall type h

/-- Whatever types are known, all that are looked for are identifiers. -/
theorem isIdentifier_of_known (h : ∀ type ∈ types, type.isIdentifier = true) :
    ∀ type ∈ (Vocabulary.builtinTypes ++ types).eraseDups, type.isIdentifier = true := by
  intro type htype
  rw [List.mem_eraseDups, List.mem_append] at htype
  exact htype.elim isIdentifier_of_mem_builtinTypes (h type)

end Harvest
end CCompletion
