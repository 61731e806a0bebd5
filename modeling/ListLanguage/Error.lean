import ListLanguage.Arity
import ListLanguage.Text.Window

/-!
# Errors

A run can fail at each of its stages: while the text is cut into tokens, while the tokens are
gathered into forms, while forms are expanded, while they are evaluated, and at the end, when
there is nothing to return. Each stage has a type of errors of its own and `Error` joins them;
`message` puts an error into words, for a joined one with the name of its stage in front.

An error of the first three stages holds its wording, so that whoever extends the language can
raise one with words of their own. The wordings of the language's own causes are given by the
functions that build those errors.
-/

namespace ListLanguage

/-- The ways in which cutting a text into tokens fails. -/
inductive LexError.Kind where
  | unterminatedString
  deriving DecidableEq

/-- A failure to cut a text into tokens, at a byte offset. -/
structure LexError where
  kind : LexError.Kind
  text : String
  offset : Nat
  /-- The surroundings of the place in the text. -/
  context : Option String
  deriving DecidableEq

/-- The ways in which gathering tokens into forms fails. -/
inductive ParseError.Kind where
  | unbalancedClose
  | unterminatedList
  | tooDeeplyNested
  deriving DecidableEq

/-- A failure to gather tokens into forms. -/
structure ParseError where
  kind : ParseError.Kind
  text : String
  /-- The text of the token to blame, where there is one. -/
  found : Option String
  deriving DecidableEq

/-- The ways in which an expansion fails. -/
inductive ExpansionError.Kind where
  | arityMismatch (expected got : Nat)
  | invalidShape
  | depthExceeded
  deriving DecidableEq

/-- A failure to expand a form. -/
structure ExpansionError where
  kind : ExpansionError.Kind
  /-- The name of the expander at work. -/
  name : String
  text : String
  deriving DecidableEq

/-- A failure to evaluate a form. -/
inductive EvalError where
  | unboundSymbol (name : String)
  /-- A count of arguments that the arity does not admit; the operation may be unknown where
  this is noticed. -/
  | arityMismatch (operation : Option String) (expected : Arity) (got : Nat)
  | typeMismatch (text : String)
  | uncallableHead (form : String)
  | emptyList (operation : String)
  | depthExceeded (limit : Nat)
  /-- A failure that a function of the host reports. -/
  | host (text : String)
  deriving DecidableEq

/-- The stages of a run. -/
inductive Stage where
  | lex
  | parse
  | expansion
  | evaluation
  | output
  deriving DecidableEq

/-- A failure of a run. -/
inductive Error where
  | lex (error : LexError)
  | parse (error : ParseError)
  | expansion (error : ExpansionError)
  | evaluation (error : EvalError)
  | output (text : String)
  deriving DecidableEq

/-! ### Cutting into tokens -/

namespace LexError

/-- An error at a byte offset of a source, with the surroundings of that place. -/
def inSource (kind : Kind) (text source : String) (offset : Nat) : LexError :=
  ⟨kind, text, offset, some (Text.window source offset)⟩

/-- The source ends inside a string; the atom with that string starts at `offset`. -/
def unterminatedString (source : String) (offset : Nat) : LexError :=
  inSource .unterminatedString "Unterminated string" source offset

/-- What went wrong, where, and how the source looks there. -/
def message (error : LexError) : String :=
  s!"{error.text} at offset {error.offset}" ++
    match error.context with
    | some context => s!" near '{context}'"
    | none => ""

end LexError

/-! ### Gathering into forms -/

namespace ParseError

/-- A list is opened at `offset`, inside as many lists as are allowed. -/
def tooDeeplyNested (offset limit : Nat) : ParseError :=
  ⟨.tooDeeplyNested,
    s!"Expression too deeply nested at offset {offset} (max depth: {limit})", none⟩

/-- A bracket closes at `offset`, and no list is open. -/
def unbalancedClose (offset : Nat) (found : String) : ParseError :=
  ⟨.unbalancedClose, s!"Unexpected ')' at offset {offset}", some found⟩

/-- The tokens end inside `count` lists. -/
def unterminatedList (count : Nat) : ParseError :=
  ⟨.unterminatedList, s!"Missing ')': {count} list(s) still open at end of input", none⟩

/-- What went wrong, and which token is to blame. -/
def message (error : ParseError) : String :=
  error.text ++
    match error.found with
    | some found => s!" (found '{found}')"
    | none => ""

end ParseError

/-! ### Expansion -/

namespace ExpansionError

/-- An expander takes exactly `expected` elements and was given `got`. -/
def arity (name : String) (expected got : Nat) : ExpansionError :=
  ⟨.arityMismatch expected got, name,
    s!"{name} requires exactly {expected} arguments, got {got}"⟩

/-- An expander refuses the shape of its elements, in words of its own. -/
def invalidShape (name text : String) : ExpansionError :=
  ⟨.invalidShape, name, text⟩

/-- A list lies inside as many lists as are allowed. -/
def depthExceeded (limit : Nat) : ExpansionError :=
  ⟨.depthExceeded, "", s!"Expansion depth limit exceeded (max: {limit})"⟩

/-- What went wrong. -/
def message (error : ExpansionError) : String :=
  error.text

end ExpansionError

/-! ### Evaluation -/

namespace EvalError

/-- A value of another type was expected. -/
def expected (wanted found : String) : EvalError :=
  typeMismatch s!"expected {wanted}, found {found}"

/-- Says which operation an arity is about, where that was unknown. -/
def named (operation : String) : EvalError → EvalError
  | arityMismatch none expected got => arityMismatch (some operation) expected got
  | error => error

/-- What went wrong. -/
def message : EvalError → String
  | unboundSymbol name => s!"Unbound symbol: {name}"
  | arityMismatch (some operation) expected got =>
    s!"'{operation}' expects {expected.text} arguments, got {got}"
  | arityMismatch none expected got =>
    s!"function expects {expected.text} arguments, got {got}"
  | typeMismatch text => s!"Type mismatch: {text}"
  | uncallableHead form => s!"Cannot call {form} here"
  | emptyList operation => s!"'{operation}' of an empty list"
  | depthExceeded limit => s!"Evaluation depth limit exceeded (max: {limit})"
  | host text => text

end EvalError

/-- Checks a count of arguments, for an operation that is not known here. -/
def Arity.check (arity : Arity) (got : Nat) : Except EvalError Unit :=
  if arity.admits got then .ok () else .error (.arityMismatch none arity got)

/-! ### All stages -/

/-- What a stage is called in a message. -/
def Stage.name : Stage → String
  | lex => "Lex"
  | parse => "Parse"
  | expansion => "Macro Expansion"
  | evaluation => "Evaluation"
  | output => "Output"

namespace Error

/-- A source without any form has no last value. -/
def noExpressions : Error :=
  output "program contains no expressions"

/-- The stage at which a run failed. -/
def stage : Error → Stage
  | lex _ => .lex
  | parse _ => .parse
  | expansion _ => .expansion
  | evaluation _ => .evaluation
  | output _ => .output

/-- What went wrong, without the stage. -/
def cause : Error → String
  | lex error => error.message
  | parse error => error.message
  | expansion error => error.message
  | evaluation error => error.message
  | output text => text

/-- The stage and what went wrong there. -/
def message (error : Error) : String :=
  s!"{error.stage.name} Error: {error.cause}"

end Error

end ListLanguage
