import ListLanguage.Number.Text
import ListLanguage.Text.Bracketed
import ListLanguage.Text.Quoted

/-!
# Values

What evaluation yields: numbers, strings, lists, and a placeholder for the operations, which
are not data. A string is kept as it was written, with its quote marks.

Two values are equal when they have the same shape and equal leaves. Numbers are compared as
doubles: the two zeros are equal, and what is not a number differs from itself, so equality
of values is not reflexive.
-/

namespace ListLanguage

/-- The result of an evaluation. -/
inductive Value where
  | number (value : Float)
  /-- A string, quote marks included. -/
  | string (stored : String)
  | list (elements : List Value)
  /-- Stands for an operation that was named where data is expected. -/
  | callable
  deriving Inhabited

namespace Value

/-- The empty list. -/
def nil : Value :=
  list []

/-- The string with the given content. -/
def ofContent (content : String) : Value :=
  string (Text.enquote content)

/-- The number nearest to a whole number. -/
def ofInt (n : Int) : Value :=
  number (Number.ofInt n)

/-- The content of a string, without its quote marks. -/
def content? : Value → Option String
  | string stored => some (Text.unquote stored)
  | _ => none

/-- What a value is called in a message. -/
def typeName : Value → String
  | number _ => "number"
  | string _ => "string"
  | list _ => "list"
  | callable => "callable"

/-- Whether a value is the empty list. -/
def isNil : Value → Bool
  | list [] => true
  | _ => false

/-- How the placeholder for an operation is written. -/
def callableText : String := "#<callable>"

mutual

/-- The written form of a value. -/
def print : Value → String
  | number x => Number.text x
  | string stored => stored
  | list elements => Text.bracketed (printAll elements)
  | callable => callableText

/-- The written forms of some values. -/
def printAll : List Value → List String
  | [] => []
  | v :: vs => v.print :: printAll vs

end

mutual

/-- Equality of values, with numbers compared as doubles. -/
def equal : Value → Value → Bool
  | number x, number y => x == y
  | string s, string t => s == t
  | list us, list vs => equalAll us vs
  | callable, callable => true
  | _, _ => false

/-- Equality of sequences of values, element by element. -/
def equalAll : List Value → List Value → Bool
  | [], [] => true
  | u :: us, v :: vs => u.equal v && equalAll us vs
  | _, _ => false

end

instance : BEq Value := ⟨equal⟩

@[simp]
theorem printAll_eq_map (vs : List Value) : printAll vs = vs.map print := by
  induction vs with
  | nil => rfl
  | cons v vs ih => simp [printAll, ih]

@[simp]
theorem content?_ofContent (content : String) : (ofContent content).content? = some content := by
  simp [ofContent, content?]

end Value

end ListLanguage
