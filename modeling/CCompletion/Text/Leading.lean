import CCompletion.Text.Class

/-!
What a text starts with. Each function answers with the part that follows, or with nothing when the
text starts otherwise; runs are always taken to their end.
-/

namespace CCompletion.Text

/-- What follows `word`. -/
def after? (word t : Text) : Option Text :=
  if word.isPrefixOf t then some (t.drop word.length) else none

/-- What follows one unit. -/
def afterUnit? (u : CodeUnit) : Text → Option Text
  | [] => none
  | v :: rest => if v = u then some rest else none

def skipBlanks (t : Text) : Text := t.dropWhile isBlank

/-- What follows a run of at least one unit of a class. -/
def afterRun? (p : CodeUnit → Bool) (t : Text) : Option Text :=
  if (t.takeWhile p).isEmpty then none else some (t.dropWhile p)

/-- A leading identifier, and what follows it. -/
def identifier? : Text → Option (Text × Text)
  | [] => none
  | u :: rest =>
    if isIdentifierStart u then
      some (u :: rest.takeWhile isIdentifierUnit, rest.dropWhile isIdentifierUnit)
    else none

/-- Does an identifier unit stand at the start? -/
def startsInWord : Text → Bool
  | [] => false
  | u :: _ => isIdentifierUnit u

/-- What follows `word` as a word of its own, where `inWord` says that an identifier unit precedes. -/
def afterWord? (word : Text) (inWord : Bool) (t : Text) : Option Text :=
  if inWord then none else (after? word t).filter fun rest => !startsInWord rest

/-- The first of several words that the text starts with, dropped. -/
def afterAny? (words : List Text) (t : Text) : Option Text := words.findSome? fun w => after? w t

theorem identifier?_append {t name rest : Text} (h : identifier? t = some (name, rest)) :
    t = name ++ rest := by
  cases t with
  | nil => simp [identifier?] at h
  | cons u t =>
    simp only [identifier?] at h
    split at h
    · obtain ⟨rfl, rfl⟩ := Prod.mk.inj (Option.some.inj h)
      simp [List.takeWhile_append_dropWhile]
    · simp at h

end CCompletion.Text
