/-!
# Arities

The **arity** of an operation says how many arguments it takes: a fixed number, a number or
more, or any number.
-/

namespace ListLanguage

/-- The argument counts that an operation takes. -/
inductive Arity where
  | exactly (count : Nat)
  | atLeast (count : Nat)
  | any
  deriving DecidableEq

namespace Arity

/-- Whether a count of arguments is taken. -/
def admits : Arity → Nat → Bool
  | exactly count, got => got == count
  | atLeast count, got => count ≤ got
  | any, _ => true

/-- How an arity reads in a message, before the word "arguments". -/
def text : Arity → String
  | exactly count => s!"exactly {count}"
  | atLeast count => s!"at least {count}"
  | any => "any number of"

/-- How an arity is shown in a listing of operations. -/
def describe : Arity → String
  | exactly count => s!"Exact({count})"
  | atLeast count => s!"AtLeast({count})"
  | any => "Any"

@[simp]
theorem admits_exactly {count got : Nat} : (exactly count).admits got ↔ got = count := by
  simp [admits]

@[simp]
theorem admits_atLeast {count got : Nat} : (atLeast count).admits got ↔ count ≤ got := by
  simp [admits]

@[simp]
theorem admits_any (got : Nat) : any.admits got := rfl

end Arity

end ListLanguage
