import ListLanguage.Error
import ListLanguage.Form
import ListLanguage.Token.Scanner

/-!
# Gathering tokens into forms

The tokens are read from left to right. A `Reader` holds the forms that are complete and the
lists that are still open, the innermost first. An opening bracket opens a list, an atom joins
the innermost open list, and a closing bracket completes that list, which then joins the next
one out.

Three faults can be found. A list may be opened inside as many lists as are allowed, a bracket
may close where no list is open, and the tokens may end inside a list. Reading stops at the
first fault.

An atom is converted by its kind. The text of a number token need not be a numeral, since
tokens can be made by hand; if it does not read as a number, the atom is a symbol.
-/

namespace ListLanguage

/-- How many lists may lie inside one another, unless an environment says otherwise. -/
def nestingLimit : Nat := 256

namespace Form

/-- The form that an atom stands for. -/
def ofAtom (token : Token) : Form :=
  match token.kind with
  | .number => (Number.ofText? token.text).elim (symbol token.text) number
  | .quoted => string token.text
  | .symbol | .opening | .closing => symbol token.text

end Form

/-- The state of reading tokens. -/
structure Reader where
  /-- The forms that are complete and lie in no list, the last one first. -/
  forms : List Form := []
  /-- The contents so far of the open lists, the last element first, from the innermost list
  outwards. -/
  enclosing : List (List Form) := []

namespace Reader

/-- The number of open lists. -/
def depth (r : Reader) : Nat :=
  r.enclosing.length

/-- Adds a complete form to the innermost open list, or to the forms that lie in no list. -/
def add (r : Reader) (form : Form) : Reader :=
  match r.enclosing with
  | [] => { r with forms := form :: r.forms }
  | elements :: outer => { r with enclosing := (form :: elements) :: outer }

/-- Reads one token, with at most `limit` lists inside one another. -/
def step (limit : Nat) (r : Reader) (token : Token) : Except ParseError Reader :=
  match token.kind with
  | .opening =>
    if limit ≤ r.depth then .error (.tooDeeplyNested token.offset limit)
    else .ok { r with enclosing := [] :: r.enclosing }
  | .closing =>
    match r.enclosing with
    | [] => .error (.unbalancedClose token.offset token.text)
    | elements :: outer => .ok ({ r with enclosing := outer }.add (.list elements.reverse))
  | .number | .quoted | .symbol => .ok (r.add (.ofAtom token))

/-- Reads some tokens. -/
def read (limit : Nat) (r : Reader) (tokens : List Token) : Except ParseError Reader :=
  tokens.foldlM (step limit) r

/-- The forms that were read, if no list is open. -/
def finish (r : Reader) : Except ParseError (List Form) :=
  if r.enclosing.isEmpty then .ok r.forms.reverse else .error (.unterminatedList r.depth)

@[simp]
theorem read_nil (limit : Nat) (r : Reader) : r.read limit [] = .ok r := rfl

@[simp]
theorem read_cons (limit : Nat) (r : Reader) (token : Token) (tokens : List Token) :
    r.read limit (token :: tokens) = (r.step limit token).bind fun s => s.read limit tokens := rfl

/-- Reading can stop anywhere and go on from there. -/
theorem read_append (limit : Nat) (r : Reader) (as bs : List Token) :
    r.read limit (as ++ bs) = (r.read limit as).bind fun s => s.read limit bs :=
  List.foldlM_append

/-- Adding a form opens and closes nothing. -/
@[simp]
theorem depth_add (r : Reader) (form : Form) : (r.add form).depth = r.depth := by
  unfold add depth
  split <;> simp [*]

end Reader

/-- Gathers tokens into forms, with at most `limit` lists inside one another. -/
def Form.ofTokens (tokens : List Token) (limit : Nat := nestingLimit) :
    Except ParseError (List Form) := do
  (← ({} : Reader).read limit tokens).finish

/-- Reads the forms of a source. -/
def Form.ofSource (source : String) (lenient : Bool := false) (limit : Nat := nestingLimit) :
    Except Error (List Form) := do
  let tokens ← (tokenize source lenient).mapError .lex
  (Form.ofTokens tokens limit).mapError .parse

end ListLanguage
