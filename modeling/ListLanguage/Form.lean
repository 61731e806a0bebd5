import ListLanguage.Number.Text
import ListLanguage.Text.Bracketed
import ListLanguage.Text.Quoted

/-!
# Forms

A program is a sequence of **forms**: numbers, strings, symbols, and lists of forms. One more
kind, `Form.assign`, is not written in programs; expansion puts it at the head of a list, and
evaluation of that list binds the name to the value of the list's second element.

Forms are equal when they have the same shape and equal leaves, numbers being compared as
doubles.
-/

namespace ListLanguage

/-- A piece of a program. -/
inductive Form where
  | number (value : Float)
  /-- A string, quote marks included. -/
  | string (stored : String)
  | symbol (name : String)
  | list (elements : List Form)
  /-- The operation that binds a name. -/
  | assign (name : String)
  deriving Inhabited

namespace Form

/-- The string with the given content. -/
def ofContent (content : String) : Form :=
  string (Text.enquote content)

/-- The number nearest to a whole number. -/
def ofInt (n : Int) : Form :=
  number (Number.ofInt n)

mutual

/-- The written form. -/
def print : Form → String
  | number x => Number.text x
  | string stored => stored
  | symbol name => name
  | list elements => Text.bracketed (printAll elements)
  | assign name => "#<def " ++ name ++ ">"

/-- The written forms of some forms. -/
def printAll : List Form → List String
  | [] => []
  | f :: fs => f.print :: printAll fs

end

mutual

/-- Equality of forms, with numbers compared as doubles. -/
def equal : Form → Form → Bool
  | number x, number y => x == y
  | string s, string t => s == t
  | symbol m, symbol n => m == n
  | list fs, list gs => equalAll fs gs
  | assign m, assign n => m == n
  | _, _ => false

/-- Equality of sequences of forms, element by element. -/
def equalAll : List Form → List Form → Bool
  | [], [] => true
  | f :: fs, g :: gs => f.equal g && equalAll fs gs
  | _, _ => false

end

instance : BEq Form := ⟨equal⟩

@[simp]
theorem printAll_eq_map (fs : List Form) : printAll fs = fs.map print := by
  induction fs with
  | nil => rfl
  | cons f fs ih => simp [printAll, ih]

end Form

end ListLanguage
