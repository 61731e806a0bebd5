import ListLanguage.Text.Hidden

/-!
# Names in a listing

A listing shows names between double quotes, so that a reader can tell where each one ends.
Inside, a backslash marks a double quote, a backslash and the four control characters that have
a letter of their own; a hidden character is shown by its number.
-/

namespace ListLanguage

namespace Text

/-- How a listing shows one character of a name. -/
def listedChar (c : Char) : List Char :=
  if c = '\x00' then ['\\', '0']
  else if c = '\t' then ['\\', 't']
  else if c = '\n' then ['\\', 'n']
  else if c = '\r' then ['\\', 'r']
  else if c = '"' then ['\\', '"']
  else if c = '\\' then ['\\', '\\']
  else if isHidden c then
    ['\\', 'u', '\x7b'] ++ Nat.toDigits 16 c.toNat ++ ['\x7d']
  else [c]

/-- How a listing shows a name. -/
def listedName (name : String) : String :=
  "\"" ++ String.ofList (name.toList.flatMap listedChar) ++ "\""

/-- How a listing shows some names. -/
def listedNames (names : List String) : String :=
  "[" ++ ", ".intercalate (names.map listedName) ++ "]"

end Text

end ListLanguage
