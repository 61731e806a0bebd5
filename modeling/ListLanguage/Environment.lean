import Std.Data.ExtTreeMap
import ListLanguage.Builtin
import ListLanguage.Form.Reader
import ListLanguage.Text.Listing

/-!
# Environments

A program runs in an **environment**, which has two parts. The `Bindings` say what names stand
for and change while a program is evaluated. The `Dialect` stays as it is: the expanders that
make new lists out of some lists before evaluation, the resolver through which the host offers
operations of its own, and the limit on the nesting of lists.

Both tables are kept in the order of the names, and two tables with the same entries are
equal.
-/

namespace ListLanguage

/-- What a name stands for. -/
inductive Binding where
  | builtin (op : Builtin)
  | value (value : Value)

namespace Binding

/-- Equality of bindings, with numbers compared as doubles. -/
def equal : Binding → Binding → Bool
  | builtin a, builtin b => a == b
  | value u, value v => u == v
  | _, _ => false

instance : BEq Binding := ⟨equal⟩

end Binding

/-- What names stand for, at most one thing for each name. -/
abbrev Bindings := Std.ExtTreeMap String Binding

/-- Makes the elements of a new list from the elements that follow the head of a list. -/
abbrev Expander := List Form → Except ExpansionError (List Form)

/-- The operations that the host offers, by name. -/
abbrev Resolver := String → Option Operation

/-- What a program cannot change about the environment it runs in. -/
structure Dialect where
  /-- The expanders, by the name at the head of the lists they expand. -/
  expanders : Std.ExtTreeMap String Expander := ∅
  resolver : Option Resolver := none
  /-- How many lists may lie inside one another, in the source, in expansion and in
  evaluation. -/
  limit : Nat := nestingLimit

/-- The operation of the host with a name. -/
def Dialect.resolve? (d : Dialect) (name : String) : Option Operation :=
  d.resolver.bind fun resolver => resolver name

/-- What a program runs in. -/
structure Environment extends Dialect where
  bindings : Bindings := ∅

/-- Expands a definition: `(def name form)` becomes a list with the assignment of the name at
its head and the form after it. -/
def defExpander : Expander
  | [.symbol name, form] => .ok [.assign name, form]
  | [other, _] =>
    .error (.invalidShape "def"
      s!"def requires a symbol as its first argument, found {other.print}")
  | tail => .error (.arity "def" 2 tail.length)

namespace Environment

/-- The environment without bindings and expanders. -/
def empty : Environment := {}

/-- The environment in which the operations of the language are bound under their names, and
definitions are expanded. -/
def standard : Environment where
  bindings := Builtin.all.foldl (fun b op => b.insert op.id (.builtin op)) ∅
  expanders := (∅ : Std.ExtTreeMap String Expander).insert "def" defExpander

/-- What a name stands for. -/
def get? (env : Environment) (name : String) : Option Binding :=
  env.bindings[name]?

/-- Binds a name to a value. -/
def define (env : Environment) (name : String) (value : Value) : Environment :=
  { env with bindings := env.bindings.insert name (.value value) }

/-- The expander under a name. -/
def expander? (env : Environment) (name : String) : Option Expander :=
  env.expanders[name]?

/-- Puts an expander under a name. -/
def setExpander (env : Environment) (name : String) (expander : Expander) : Environment :=
  { env with expanders := env.expanders.insert name expander }

/-- Takes operations from a host. -/
def setResolver (env : Environment) (resolver : Resolver) : Environment :=
  { env with resolver := some resolver }

/-- Sets the limit on nesting. -/
def setLimit (env : Environment) (limit : Nat) : Environment :=
  { env with limit := limit }

/-- How an environment is shown: the number of its bindings, the names of its expanders, whether
it has a host, and its limit. -/
def describe (env : Environment) : String :=
  s!"Environment \x7b bindings: {env.bindings.size}, " ++
    s!"macros: {Text.listedNames env.expanders.keys}, " ++
    s!"resolver: {env.resolver.isSome}, max_depth: {env.limit} \x7d"

@[simp]
theorem get?_define (env : Environment) (name other : String) (value : Value) :
    (env.define name value).get? other =
      if name = other then some (.value value) else env.get? other := by
  simp [define, get?, Std.ExtTreeMap.getElem?_insert]

end Environment

end ListLanguage
