import ListLanguage.Operation

/-!
# The operations of the language

Four operations on numbers, one of which also joins strings, and four on lists:

* `(+ 1 2 3)` is `6` and `(+ "ab" "cd")` is `"abcd"`; the first argument decides;
* `(- 10 3)` is `7` and `(/ 9 2)` is `4.5`; further arguments are not looked at;
* `(* 2 3 4)` is `24`;
* `(head (1 2 3))` is `1` and `(last (1 2 3))` is `3`; the empty list has neither;
* `(tail (1 2 3))` is `(2 3)` and `(front (1 2 3))` is `(1 2)`.

Arithmetic is that of doubles, so a division by zero is infinite or not a number. Sums and
products are taken from the left, starting from zero and from one.

Assignment is not among them: it is the work of `Form.assign`.
-/

namespace ListLanguage

/-- An operation of the language. -/
inductive Builtin where
  | add
  | subtract
  | multiply
  | divide
  | head
  | tail
  | last
  | front
  deriving DecidableEq

namespace Builtin

/-- All of them, in the order in which they are listed. -/
def all : List Builtin :=
  [add, subtract, multiply, divide, head, tail, last, front]

/-- The name under which an operation is bound. -/
def id : Builtin → String
  | add => "+"
  | subtract => "-"
  | multiply => "*"
  | divide => "/"
  | head => "head"
  | tail => "tail"
  | last => "last"
  | front => "front"

/-- The operation with a name. -/
def ofId? (name : String) : Option Builtin :=
  all.find? fun op => op.id = name

/-- The arity that is checked before an operation runs. -/
def arity : Builtin → Arity
  | add | subtract | multiply | divide => .atLeast 2
  | head | tail | last | front => .exactly 1

/-- The content of an argument that is to be joined to a string. -/
def contentToJoin : Value → Except EvalError String
  | .string stored => .ok (Text.unquote stored)
  | v => .error (.typeMismatch s!"'+' cannot append a {v.typeName} to a string")

/-- Joins the contents of strings into one string. -/
def joinStrings (vs : List Value) : Except EvalError Value := do
  let contents ← vs.mapM contentToJoin
  return .ofContent (String.join contents)

/-- Adds an argument to a sum. -/
def addNumber (sum : Float) : Value → Except EvalError Float
  | .number x => .ok (sum + x)
  | v => .error (.typeMismatch s!"'+' cannot add a {v.typeName} to a number")

/-- The sum of numbers. -/
def sumNumbers (vs : List Value) : Except EvalError Value := do
  let sum ← vs.foldlM addNumber (Number.ofInt 0)
  return .number sum

/-- Joins strings if the first argument is a string, and adds numbers otherwise. -/
def joinOrAdd (vs : List Value) : Except EvalError Value :=
  match vs with
  | .string _ :: _ => joinStrings vs
  | _ => sumNumbers vs

/-- What an operation does with arguments that its arity admits. -/
def apply : Builtin → Operation
  | add => .variadic [] .any fun _ vs => joinOrAdd vs.toList
  | subtract => .variadic [.number, .number] .any fun (x, y, ()) _ => .ok (.number (x - y))
  | multiply => .variadic [] .number fun _ xs =>
    .ok (.number (xs.toList.foldl (· * ·) (Number.ofInt 1)))
  | divide => .variadic [.number, .number] .any fun (x, y, ()) _ => .ok (.number (x / y))
  | head => .fixed [.list .any] fun (vs, ()) =>
    match vs.toList.head? with
    | some v => .ok v
    | none => .error (.emptyList "head")
  | tail => .fixed [.list .any] fun (vs, ()) => .ok (.list vs.toList.tail)
  | last => .fixed [.list .any] fun (vs, ()) =>
    match vs.toList.getLast? with
    | some v => .ok v
    | none => .error (.emptyList "last")
  | front => .fixed [.list .any] fun (vs, ()) => .ok (.list vs.toList.dropLast)

/-- Checks the count of the arguments and applies an operation. An error about the count names
the operation. -/
def call (op : Builtin) : Operation :=
  fun vs => (op.apply.withArity op.arity vs).mapError (.named op.id)

/-- How an operation is shown in a listing. -/
def describe (op : Builtin) : String :=
  s!"BuiltinOp \x7b id: \"{op.id}\", arity: {op.arity.describe}, .. \x7d"

/-- No operation is left out of the list. -/
theorem mem_all (op : Builtin) : op ∈ all := by
  cases op <;> decide

/-- Operations with the same name are the same. -/
theorem id_injective {a b : Builtin} (h : a.id = b.id) : a = b := by
  cases a <;> cases b <;> first | rfl | exact absurd h (by decide)

@[simp]
theorem ofId?_id (op : Builtin) : ofId? op.id = some op := by
  cases op <;> decide

end Builtin

end ListLanguage
