import ListLanguage.Evaluation
import ListLanguage.Expansion

/-!
# Running a program

A run takes a source through all stages: it is cut into tokens, gathered into forms and
expanded, and then the forms are evaluated in order. `Dialect.program` is the part before
evaluation, which neither sees nor changes the bindings; if it fails, nothing is evaluated.
The run returns the value of the last form, and it is an error if there is none.

`Environment.run` and `Environment.eval` return the environment that a run or an evaluation
leaves, whether it fails or not. `Environment.execute` returns text: the written value, or the
message of the error.
-/

namespace ListLanguage

namespace Dialect

/-- The forms of a source, expanded. -/
def program (d : Dialect) (source : String) (lenient : Bool := false) :
    Except Error (List Form) := do
  let forms ← Form.ofSource source lenient d.limit
  (d.expandAll forms).mapError .expansion

/-- Evaluates expanded forms in order and returns the last value. -/
def evalProgram (d : Dialect) (forms : List Form) (bindings : Bindings) :
    Except Error Value × Bindings :=
  match d.evalLast forms bindings with
  | .ok (some v) bindings => (.ok v, bindings)
  | .ok none bindings => (.error .noExpressions, bindings)
  | .error e bindings => (.error (.evaluation e), bindings)

end Dialect

namespace Environment

/-- Expands a form. -/
def expand (env : Environment) (form : Form) : Except ExpansionError Form :=
  env.toDialect.expand form

/-- Expands some forms, from left to right. -/
def expandAll (env : Environment) (forms : List Form) : Except ExpansionError (List Form) :=
  env.toDialect.expandAll forms

/-- Evaluates a form, and gives the environment that is left. -/
def eval (env : Environment) (form : Form) : Except EvalError Value × Environment :=
  match env.toDialect.eval form env.bindings with
  | .ok v bindings => (.ok v, { env with bindings })
  | .error e bindings => (.error e, { env with bindings })

/-- Runs a source, and gives the environment that is left. -/
def run (env : Environment) (source : String) (lenient : Bool := false) :
    Except Error Value × Environment :=
  match env.toDialect.program source lenient with
  | .error e => (.error e, env)
  | .ok forms =>
    let (result, bindings) := env.toDialect.evalProgram forms env.bindings
    (result, { env with bindings })

/-- Runs a source and puts the outcome into words. -/
def execute (env : Environment) (source : String) : String × Environment :=
  let (result, env) := env.run source
  match result with
  | .ok v => (v.print, env)
  | .error e => (e.message, env)

end Environment

end ListLanguage
