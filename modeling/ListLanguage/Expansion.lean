import ListLanguage.Environment

/-!
# Expansion

Forms are expanded before they are evaluated. In a list, the elements are expanded first, from
left to right. Then, if the list's head is a symbol with an expander, the expander makes the
list's new elements from those that follow the head; what it makes is not expanded again.

A list that lies inside as many lists as the limit allows is refused before its elements are
looked at.
-/

namespace ListLanguage

namespace Dialect

/-- Expands a list whose elements are expanded. -/
def expandHead (d : Dialect) (elements : List Form) : Except ExpansionError (List Form) :=
  match elements with
  | .symbol name :: tail =>
    match d.expanders[name]? with
    | some expander => expander tail
    | none => .ok elements
  | _ => .ok elements

mutual

/-- Expands a form that lies inside `depth` lists. -/
def expandAt (d : Dialect) (depth : Nat) : Form → Except ExpansionError Form
  | .list elements =>
    if d.limit ≤ depth then .error (.depthExceeded d.limit)
    else do
      let elements ← expandEach d (depth + 1) elements
      .list <$> d.expandHead elements
  | form => .ok form

/-- Expands some forms that lie inside `depth` lists, from left to right. -/
def expandEach (d : Dialect) (depth : Nat) : List Form → Except ExpansionError (List Form)
  | [] => .ok []
  | form :: forms => do
    let form ← expandAt d depth form
    let forms ← expandEach d depth forms
    return form :: forms

end

/-- Expands a form. -/
def expand (d : Dialect) (form : Form) : Except ExpansionError Form :=
  d.expandAt 0 form

/-- Expands some forms, from left to right. -/
def expandAll (d : Dialect) (forms : List Form) : Except ExpansionError (List Form) :=
  d.expandEach 0 forms

end Dialect

end ListLanguage
