/-!
# The written form of a list

A list is written as its elements' texts with single spaces between them, inside round
brackets. Values and forms share this notation.
-/

namespace ListLanguage

namespace Text

/-- The text of a list whose elements have the given texts. -/
def bracketed (elements : List String) : String :=
  "(" ++ " ".intercalate elements ++ ")"

@[simp]
theorem bracketed_nil : bracketed [] = "()" := by decide

/-- A written list starts with a bracket, so it is never empty. -/
theorem bracketed_ne_empty (elements : List String) : bracketed elements ≠ "" := by
  intro h
  simpa [bracketed] using congrArg String.toList h

end Text

end ListLanguage
