import CCompletion.Text.Basic
import CCompletion.Text.LetterCase

/-!
The lowercase of a text. A capital sigma at the end of a word has a form of its own: one that follows a
cased letter and is not followed by one, passing over ignorable characters on both sides.
-/

namespace CCompletion.Text

open LetterCase

def isCased (c : Nat) : Bool :=
  if c < 128 then (65 ≤ c && c ≤ 90) || (97 ≤ c && c ≤ 122) else inRanges casedRanges c

def isCaseIgnorable (c : Nat) : Bool := inRanges ignorableRanges c

/-- The lowercase of a character on its own; only a capital I with a dot has one of two characters. -/
def lowerCodePoint (c : Nat) : List Nat :=
  if c < 128 then [if 65 ≤ c ∧ c ≤ 90 then c + 32 else c]
  else if c = 0x130 then [0x69, 0x307]
  else [(lowercaseSpans.findSome? fun s => s.shifted? c).getD c]

/-- Is the next character that counts a cased letter? -/
def casedFollows : List Nat → Bool
  | [] => false
  | c :: rest => if isCaseIgnorable c then casedFollows rest else isCased c

/-- The lowercase of characters, where `cased` says that the last one that counted was a cased letter. -/
def lowerCodePoints (cased : Bool) : List Nat → List Nat
  | [] => []
  | c :: rest =>
    let lowered :=
      if c = 0x3A3 then [if cased && !casedFollows rest then 0x3C2 else 0x3C3] else lowerCodePoint c
    lowered ++ lowerCodePoints (if isCaseIgnorable c then cased else isCased c) rest

def toLower (t : Text) : Text := ofCodePoints (lowerCodePoints false t.toCodePoints)

end CCompletion.Text
