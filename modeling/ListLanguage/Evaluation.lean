import ListLanguage.Environment

/-!
# Evaluation

Numbers and strings evaluate to themselves, a symbol to the value it is bound to; a symbol
bound to an operation evaluates to a placeholder. A list is a call if its head can be called,
and data otherwise.

What a head calls is looked up in this order: an assignment calls itself; a symbol bound to an
operation of the language calls that; any other symbol, bound to a value or not, calls the
operation that the host has under its name. The arguments of a call are evaluated from left to
right and given to the operation. An assignment takes one argument, which is counted before it
is evaluated, and binds its name to the value. In a list that is data, every element is
evaluated, the head included.

An evaluation reads and changes the bindings only. When it fails, the bindings made up to then
stay. A list that lies inside as many lists as the limit allows is refused before anything in
it is evaluated.
-/

namespace ListLanguage

/-- A computation on bindings that may fail; a failure keeps the bindings. -/
abbrev Evaluation := EStateM EvalError Bindings

/-- What the head of a list calls. -/
inductive Callee where
  /-- Binds the name to its argument. -/
  | assign (name : String)
  | builtin (op : Builtin)
  | host (operation : Operation)

namespace Evaluation

/-- The value that a symbol has as data. -/
def lookup (name : String) : Evaluation Value := do
  match (← get)[name]? with
  | some (.builtin _) => return .callable
  | some (.value v) => return v
  | none => throw (.unboundSymbol name)

/-- Binds a name to a value, and yields the value. -/
def assign (name : String) (value : Value) : Evaluation Value := do
  modify fun bindings => bindings.insert name (.value value)
  return value

/-- Applies an operation to evaluated arguments. -/
def apply (operation : Operation) (args : List Value) : Evaluation Value :=
  match operation args with
  | .ok v => return v
  | .error e => throw e

end Evaluation

namespace Dialect

/-- What the head of a list calls, if it can be called. -/
def callee? (d : Dialect) (bindings : Bindings) : Form → Option Callee
  | .assign name => some (.assign name)
  | .symbol name =>
    match bindings[name]? with
    | some (.builtin op) => some (.builtin op)
    | _ => (d.resolve? name).map .host
  | _ => none

mutual

/-- Evaluates a form that lies inside `depth` lists. -/
def evalAt (d : Dialect) (depth : Nat) : Form → Evaluation Value
  | .number x => return .number x
  | .string stored => return .string stored
  | .symbol name => Evaluation.lookup name
  | .assign name => throw (.uncallableHead (Form.assign name).print)
  | .list elements =>
    if d.limit ≤ depth then throw (.depthExceeded d.limit)
    else evalList d (depth + 1) elements

/-- Evaluates the list with some elements, which lie inside `depth` lists. -/
def evalList (d : Dialect) (depth : Nat) : List Form → Evaluation Value
  | [] => return .list []
  | head :: args => do
    match d.callee? (← get) head with
    | some (.assign name) =>
      match args with
      | [form] => Evaluation.assign name (← evalAt d depth form)
      | _ => throw (.arityMismatch (some "def") (.exactly 2) (args.length + 1))
    | some (.builtin op) => Evaluation.apply op.call (← evalEach d depth args)
    | some (.host operation) => Evaluation.apply operation (← evalEach d depth args)
    | none =>
      let v ← evalAt d depth head
      let vs ← evalEach d depth args
      return .list (v :: vs)

/-- Evaluates some forms that lie inside `depth` lists, from left to right. -/
def evalEach (d : Dialect) (depth : Nat) : List Form → Evaluation (List Value)
  | [] => return []
  | form :: forms => do
    let v ← evalAt d depth form
    let vs ← evalEach d depth forms
    return v :: vs

end

/-- Evaluates a form. -/
def eval (d : Dialect) (form : Form) : Evaluation Value :=
  d.evalAt 0 form

/-- Evaluates some forms in order and returns the value of the last one. -/
def evalLast (d : Dialect) (forms : List Form) : Evaluation (Option Value) :=
  forms.foldlM (fun _ form => some <$> d.eval form) none

end Dialect

end ListLanguage
