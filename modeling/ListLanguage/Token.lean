import ListLanguage.Number.Decimal
import ListLanguage.Text.Quoted

/-!
# Tokens

A program's text is cut into **tokens**: the two brackets, each a token of its own, and atoms.
An atom is a string if it begins and ends with the same quote mark, else a number if it is a
numeral, else a symbol.
-/

namespace ListLanguage

/-- The kinds of tokens. -/
inductive Token.Kind where
  | opening
  | closing
  | number
  | quoted
  | symbol
  deriving DecidableEq

/-- A token, with the byte offset of its text in the source. -/
structure Token where
  kind : Token.Kind
  text : String
  offset : Nat
  deriving DecidableEq

namespace Token

/-- The kind of an atom, which its text decides. -/
def Kind.ofAtom (text : List Char) : Kind :=
  if Text.isQuoted text then .quoted
  else if Number.isNumeral text then .number
  else .symbol

/-- The atom with a text, at an offset. -/
def atom (text : List Char) (offset : Nat) : Token :=
  ⟨.ofAtom text, String.ofList text, offset⟩

end Token

end ListLanguage
