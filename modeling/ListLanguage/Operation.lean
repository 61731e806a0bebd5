import ListLanguage.Value.Elements

/-!
# Operations and their parameters

An **operation** takes evaluated arguments and yields a value or an error. Most are given by a
list of parameters and a body that sees the arguments converted: `Operation.fixed` takes one
argument for each parameter, `Operation.variadic` takes further ones after them, all of one
kind. The count of the arguments is checked first; then they are converted from left to right,
and the first one that does not fit is reported; then the body runs.
-/

namespace ListLanguage

/-- A function of evaluated arguments. -/
abbrev Operation := List Value → Except EvalError Value

/-- What a parameter asks of its argument. -/
inductive Parameter where
  | number
  /-- A string, which is seen as its content. -/
  | string
  | any
  /-- A list whose elements are of one kind. -/
  | list (kind : ElementKind)
  deriving DecidableEq

namespace Parameter

/-- What the body of an operation sees of an argument. -/
@[reducible]
def Item : Parameter → Type
  | number => Float
  | string => String
  | any => Value
  | list kind => Elements kind

/-- Converts an argument, or reports that it does not fit. -/
def convert : (p : Parameter) → Value → Except EvalError p.Item
  | number, v => ElementKind.number.convert v
  | string, v => ElementKind.string.convert v
  | any, v => .ok v
  | list kind, .list elements => Elements.ofValues? kind elements
  | list _, v => .error (.expected "list" v.typeName)

end Parameter

/-- The converted arguments for some parameters. -/
@[reducible]
def Arguments : List Parameter → Type
  | [] => Unit
  | p :: ps => p.Item × Arguments ps

/-- Converts one argument for each parameter, from left to right. -/
def Arguments.ofValues? :
    (ps : List Parameter) → (vs : List Value) → vs.length = ps.length →
      Except EvalError (Arguments ps)
  | [], _, _ => .ok ()
  | p :: ps, v :: vs, h => do
    let item ← p.convert v
    let items ← ofValues? ps vs (Nat.succ.inj h)
    return (item, items)

namespace Operation

/-- The operation that takes one argument for each parameter. -/
def fixed (ps : List Parameter) (body : Arguments ps → Except EvalError Value) : Operation :=
  fun vs =>
    if h : vs.length = ps.length then Arguments.ofValues? ps vs h >>= body
    else .error (.arityMismatch none (.exactly ps.length) vs.length)

/-- The operation that takes one argument for each parameter and then any number of arguments
of one kind. -/
def variadic (ps : List Parameter) (kind : ElementKind)
    (body : Arguments ps → Elements kind → Except EvalError Value) : Operation :=
  fun vs =>
    if h : ps.length ≤ vs.length then do
      let first ← Arguments.ofValues? ps (vs.take ps.length) (List.length_take_of_le h)
      let rest ← Elements.ofValues? kind (vs.drop ps.length)
      body first rest
    else .error (.arityMismatch none (.atLeast ps.length) vs.length)

/-- Checks the count of the arguments before anything else. -/
def withArity (arity : Arity) (operation : Operation) : Operation :=
  fun vs => do
    arity.check vs.length
    operation vs

end Operation

end ListLanguage
