import CCompletion.Number.Printer

/-!
Why a request is refused, and the sentence that says so.
-/

namespace CCompletion

inductive Refusal where
  | cursorOutside (offset : Number) (length : Nat)
  | invalidPosition (position : Text)
  | unknownSnippet (name : Text)
  | unknownTheme (name : Text) (available : List Text)
deriving DecidableEq

def Refusal.name : Refusal → Text
  | .cursorOutside .. => "InvalidCursorError"
  | .invalidPosition _ => "InvalidPositionError"
  | .unknownSnippet _ => "UnknownSnippetError"
  | .unknownTheme .. => "UnknownThemeError"

def Refusal.message : Refusal → Text
  | .cursorOutside offset length =>
    Text.ofString "Cursor offset " ++ offset.toText ++ Text.ofString " is outside the document [0, " ++
      (Number.ofNat length).toText ++ Text.ofString "]"
  | .invalidPosition position => Text.ofString "Invalid position: " ++ position
  | .unknownSnippet name => Text.ofString "Unknown snippet: " ++ name
  | .unknownTheme name available =>
    Text.ofString "Unknown theme: " ++ name ++ Text.ofString " (available: " ++
      Text.joinWith ", " available ++ Text.ofString ")"

end CCompletion
