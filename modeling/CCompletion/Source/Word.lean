import CCompletion.Text.Class

/-!
The identifier run that ends at an offset.
-/

namespace CCompletion

/-- The longest run of identifier units that ends a text. -/
def trailingWord (t : Text) : Text := (t.reverse.takeWhile isIdentifierUnit).reverse

/-- The word that is being typed at an offset; nothing stands before the start of a text. -/
def wordBefore (t : Text) (offset : Int) : Text := trailingWord (t.take offset.toNat)

/-- Does any unit of a text belong to identifiers? -/
def hasIdentifierUnit (t : Text) : Bool := t.any isIdentifierUnit

end CCompletion
