import ListLanguage.Number.Shortest

/-!
# The text of a number

`Number.text` writes a double: its shortest decimal in positional notation, a minus in front
if it is negative. Both zeros are written `0`, so the sign of a zero is not shown; the other
special values have names.

`Number.ofText?` reads a sign and then a magnitude or a name, whose ASCII letters may be of
either case. It reads everything that `text` writes, and more: see `magnitude?`.
-/

namespace ListLanguage

namespace Number

/-- How a number is written. -/
def text (x : Float) : String :=
  let r := rank x
  if infinityRank < r then "NaN"
  else if r = infinityRank then if isNegative x then "-Infinity" else "Infinity"
  else if r = 0 then "0"
  else String.ofList ((if isNegative x then ['-'] else []) ++ (shortest r).positional)

/-- The names that are read as infinity. -/
def infinityNames : List String := ["inf", "infinity"]

/-- The names that are read as the value that is not a number. -/
def undefinedNames : List String := ["nan"]

/-- Reads a number. -/
def ofText? (text : String) : Option Float :=
  let (negative, body) := splitSign text.toList
  let name := String.ofList (body.map Char.toLower)
  if infinityNames.contains name then some (ofRank negative infinityRank)
  else if undefinedNames.contains name then some (ofRank negative (infinityRank + binade / 2))
  else (magnitude? body).map fun decimal => ofRank negative decimal.rank

end Number

end ListLanguage
