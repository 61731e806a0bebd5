import ListLanguage.Host
import ListLanguage.Proofs.Evaluation.Origin
import ListLanguage.Proofs.Run.Session

/-!
# What an error blames

An error of evaluation names what is to blame for it: a symbol, an operation and the count of its
arguments, an assignment, or the limit. In every environment that a session can come to, what it
names is there in the form that was evaluated, and it is at fault (`Environment.eval_blames`).

Two facts come together. An error is raised at an operand of the form and travels up unchanged
(`Dialect.exists_raises_of_evalAt_eq_error`). And an operation of the language is bound under its own
name only, whatever has happened to the environment (`Environment.IsReachable.eq_id`), so the name that
an error of the operation tells is the one that stands in the form. Operations of the host must not
raise errors that name an operation or anything else in the form; then such an error is one of the
language.
-/

namespace ListLanguage

/-- An error that names nothing in a form: one in words of the host, a wrong type, or a count of
arguments for an operation that is not named. -/
def EvalError.IsOfHost : EvalError → Prop
  | host _ => True
  | typeMismatch _ => True
  | arityMismatch operation _ _ => operation = none
  | _ => False

/-- An operation that fails only with errors that name nothing in a form. -/
def Operation.RaisesOfHost (operation : Operation) : Prop :=
  ∀ args e, operation args = .error e → e.IsOfHost

/-- A form **calls** a name with some number of arguments, if a list in it has the symbol at its head
and that many elements behind. -/
def Form.Calls (form : Form) (name : String) (count : Nat) : Prop :=
  ∃ args, .list (.symbol name :: args) ∈ form.subforms ∧ args.length = count

/-- A list in a form has an assignment at its head and makes `count` arguments of a definition: the
name that is assigned, and the elements behind. -/
def Form.CountsAssign (form : Form) (count : Nat) : Prop :=
  ∃ name args, .list (.assign name :: args) ∈ form.subforms ∧ args.length + 1 = count

namespace Environment

/-! ### Reachable environments -/

/-- The environments that arise from the standard or the empty one: values may be bound, expanders and
a host be set and the limit be changed, and sources be run and forms be evaluated, in any order. -/
inductive IsReachable : Environment → Prop where
  | empty : IsReachable empty
  | standard : IsReachable standard
  | define {env : Environment} (name : String) (value : Value) :
    IsReachable env → IsReachable (env.define name value)
  | setExpander {env : Environment} (name : String) (expander : Expander) :
    IsReachable env → IsReachable (env.setExpander name expander)
  | setResolver {env : Environment} (resolver : Resolver) :
    IsReachable env → IsReachable (env.setResolver resolver)
  | setLimit {env : Environment} (limit : Nat) :
    IsReachable env → IsReachable (env.setLimit limit)
  | run {env : Environment} (source : String) (lenient : Bool) :
    IsReachable env → IsReachable (env.run source lenient).2
  | eval {env : Environment} (form : Form) : IsReachable env → IsReachable (env.eval form).2

/-- After some operations are bound, each under its own name, a name that stands for an operation is
the own name of that operation, if this was so before. -/
theorem eq_id_of_foldl_builtin {bindings : Bindings} (ops : List Builtin)
    (h : ∀ (name : String) (op : Builtin), bindings[name]? = some (.builtin op) → name = op.id)
    (name : String) (op : Builtin)
    (hname : (ops.foldl (fun b op => b.insert op.id (.builtin op)) bindings)[name]? =
      some (.builtin op)) : name = op.id := by
  induction ops generalizing bindings with
  | nil => exact h name op hname
  | cons first ops ih =>
    refine ih (fun other op' hother => ?_) hname
    rw [Std.ExtTreeMap.getElem?_insert] at hother
    split at hother
    · rename_i heq
      cases hother
      exact (Std.LawfulEqOrd.eq_of_compare heq).symm
    · exact h other op' hother

/-- **Invariant**: in a reachable environment, an operation of the language is bound under its own name
only. -/
theorem IsReachable.eq_id {env : Environment} (h : env.IsReachable) (name : String) (op : Builtin)
    (hname : env.get? name = some (.builtin op)) : name = op.id := by
  induction h with
  | empty => simp [Environment.empty, get?] at hname
  | standard =>
    exact eq_id_of_foldl_builtin Builtin.all (fun other op' hother => by simp at hother) name op hname
  | define other value _ ih =>
    rw [get?_define] at hname
    split at hname
    · cases hname
    · exact ih hname
  | setExpander _ _ _ ih => exact ih hname
  | setResolver _ _ ih => exact ih hname
  | setLimit _ _ ih => exact ih hname
  | run source lenient _ ih => exact ih ((effect_run _ source lenient).get?_eq_builtin hname)
  | eval form _ ih => exact ih ((effect_eval _ form).get?_eq_builtin hname)

/-! ### Blame -/

/-- A form calls an operation of the language, which fails with an error for as many values as the call
has arguments. -/
def BuiltinRaises (env : Environment) (form : Form) (e : EvalError) : Prop :=
  ∃ (op : Builtin) (vs : List Value), env.get? op.id = some (.builtin op) ∧
    form.Calls op.id vs.length ∧ op.call vs = .error e

/-- A form calls an operation of the host, which fails with an error for as many values as the call has
arguments. -/
def HostRaises (env : Environment) (form : Form) (e : EvalError) : Prop :=
  ∃ (name : String) (operation : Operation) (vs : List Value), env.resolve? name = some operation ∧
    form.Calls name vs.length ∧ operation vs = .error e

/-- What an error **blames**, if the evaluation of a form fails with it and leads from one environment
to another: the form has what the error names, and this is at fault. -/
def Blames (before after : Environment) (form : Form) : EvalError → Prop
  | .unboundSymbol name =>
    .symbol name ∈ form.subforms ∧ before.get? name = none ∧ after.get? name = none
  | .arityMismatch (some id) expected got =>
    (id = "def" ∧ expected = .exactly 2 ∧ got ≠ 2 ∧ form.CountsAssign got) ∨
      ∃ op : Builtin, id = op.id ∧ before.get? id = some (.builtin op) ∧ expected = op.arity ∧
        op.arity.admits got = false ∧ form.Calls id got
  | .emptyList id => (id = "head" ∨ id = "last") ∧ form.Calls id 1
  | .uncallableHead text => ∃ name, text = (Form.assign name).print ∧ form.HasLoose name
  | .depthExceeded limit => limit = before.limit ∧ before.limit < form.depth
  | .typeMismatch text =>
    before.BuiltinRaises form (.typeMismatch text) ∨ before.HostRaises form (.typeMismatch text)
  | .arityMismatch none expected got => before.HostRaises form (.arityMismatch none expected got)
  | .host text => before.HostRaises form (.host text)

variable {before after : Environment} {form : Form} {e : EvalError}

/-- An error of the host blames the operation that has raised it. -/
theorem HostRaises.blames (h : before.HostRaises form e) (he : e.IsOfHost) :
    before.Blames after form e := by
  cases e with
  | typeMismatch text => exact .inr h
  | host text => exact h
  | arityMismatch operation expected got =>
    cases he
    exact h
  | _ => exact he.elim

/-- An error of an operation of the language blames this operation. -/
theorem BuiltinRaises.blames (h : before.BuiltinRaises form e) : before.Blames after form e := by
  obtain ⟨op, vs, hop, hcalls, hfail⟩ := h
  rcases op.call_eq_error hfail with ⟨hadmits, rfl⟩ | ⟨text, rfl⟩ | ⟨hid, hlength, rfl⟩
  · exact .inr ⟨op, rfl, hop, rfl, hadmits, hcalls⟩
  · exact .inl ⟨op, vs, hop, hcalls, hfail⟩
  · refine ⟨?_, hlength ▸ hcalls⟩
    rcases hid with rfl | rfl
    · exact .inl rfl
    · exact .inr rfl

/-- An evaluation that fails leaves the bindings that it has made up to then. -/
theorem exists_of_eval_eq_error {env : Environment} (h : (env.eval form).1 = .error e) :
    ∃ last, env.toDialect.evalAt 0 form env.bindings = .error e last ∧
      (env.eval form).2.bindings = last := by
  rw [eval, Dialect.eval] at h ⊢
  cases hresult : env.toDialect.evalAt 0 form env.bindings with
  | ok v last =>
    rw [hresult] at h
    cases h
  | error e' last =>
    rw [hresult] at h
    cases h
    exact ⟨last, rfl, rfl⟩

/-- What raises an error, after some assignments, is what the error blames, where operations of the
language are bound under their own names. -/
theorem blames_of_raises {env : Environment} {inner : Nat} {operand : Form} {names : List String}
    {b : Bindings} (hid : ∀ name op, env.get? name = some (.builtin op) → name = op.id)
    (hhost : ∀ name operation, env.resolve? name = some operation → operation.RaisesOfHost)
    (hoperand : form.HasOperand inner operand) (hb : env.bindings.Assigned names b)
    (h : env.toDialect.Raises inner b after.bindings operand e) : env.Blames after form e := by
  have hmem : operand ∈ form.subforms := hoperand.mem_subforms
  cases h with
  | @unbound name hname hafter =>
    have hbefore : env.get? name = none := (hb.getElem?_eq (by simp [hname])).trans hname
    exact ⟨hmem, hbefore, hafter⟩
  | loose name => exact ⟨name, rfl, hoperand.hasLoose⟩
  | deep elements hfull =>
    have hdepth := hoperand.add_depth_le
    rw [Form.depth_list] at hdepth
    exact ⟨rfl, by omega⟩
  | @miscount name args hargs => exact .inl ⟨rfl, rfl, by omega, name, args, hmem, rfl⟩
  | @builtin name op args vs _ hname hlength hfail =>
    -- what stands for an operation at the operand stood for it from the start, so by its own name
    have hop : env.get? name = some (.builtin op) :=
      (hb.getElem?_eq (by simp [hname])).trans hname
    obtain rfl := hid name op hop
    exact BuiltinRaises.blames ⟨op, vs, hop, ⟨args, hmem, hlength.symm⟩, hfail⟩
  | @host name operation args vs _ hname hlength hfail =>
    have hraises : env.HostRaises form e :=
      ⟨name, operation, vs, hname, ⟨args, hmem, hlength.symm⟩, hfail⟩
    exact hraises.blames (hhost name operation hname vs e hfail)

/-- **An error blames something real.** In an environment that is reached from the standard or the
empty one, operations of the language are bound under their own names only. And if no operation of the
host raises an error that names something in a form, then an error of evaluation blames what is there
and at fault: a symbol that is bound neither before nor after, a call that its operation does not
admit, an assignment whose arguments are miscounted, a call of `head` or `last`, an assignment that is
at the head of no list, or the depth of the form; and an error without a name was raised by an
operation that the form calls. -/
theorem eval_blames (env : Environment) (hreachable : env.IsReachable)
    (hhost : ∀ name operation, env.resolve? name = some operation → operation.RaisesOfHost) :
    (∀ name op, env.get? name = some (.builtin op) → name = op.id) ∧
      ∀ form e, (env.eval form).1 = .error e → env.Blames (env.eval form).2 form e := by
  have hid := hreachable.eq_id
  refine ⟨hid, fun form e he => ?_⟩
  obtain ⟨last, hfail, hlast⟩ := exists_of_eval_eq_error he
  obtain ⟨inner, operand, names, b, hoperand, hb, hraises⟩ :=
    Dialect.exists_raises_of_evalAt_eq_error hfail
  rw [Nat.zero_add, ← hlast] at hraises
  exact blames_of_raises hid hhost hoperand hb hraises

/-- The host has a clock, and a source has bound the empty list. The clock takes no argument and `+`
takes at least two; the list has no first element; and a name is not bound. -/
theorem eval_blames_clock :
    let clock : Operation := .fixed [] fun _ => .ok (.ofInt 12)
    let env := ((standard.setResolver (({} : HostTable).insert "now" clock).resolve?).run
      "(def x ())" false).2
    let lone : Form := .list [.symbol "+", .list [.symbol "now"]]
    let misread : Form := .list [.symbol "+", .list [.symbol "now", .symbol "x"]]
    let first : Form := .list [.symbol "tail", .list [.symbol "head", .symbol "x"]]
    let unbound : Form := .list [.symbol "x", .symbol "y"]
    (∀ name op, env.get? name = some (.builtin op) → name = op.id) ∧
      ((env.eval lone).1 = .error (.arityMismatch (some "+") (.atLeast 2) 1) ∧
        env.Blames (env.eval lone).2 lone (.arityMismatch (some "+") (.atLeast 2) 1)) ∧
      ((env.eval misread).1 = .error (.arityMismatch none (.exactly 0) 1) ∧
        env.HostRaises misread (.arityMismatch none (.exactly 0) 1)) ∧
      ((env.eval first).1 = .error (.emptyList "head") ∧ first.Calls "head" 1) ∧
      ((env.eval unbound).1 = .error (.unboundSymbol "y") ∧ env.get? "y" = none) := by
  intro clock env lone misread first unbound
  have hreachable : env.IsReachable := .run _ false (.setResolver _ .standard)
  have hhost : ∀ name operation, env.resolve? name = some operation →
      operation.RaisesOfHost := by
    intro name operation hname args e he
    rw [show env.resolve? name = (({} : HostTable).insert "now" clock).resolve? name
      from congrArg (Dialect.resolve? · name) (effect_run _ "(def x ())" false).dialect,
      HostTable.resolve?_insert] at hname
    split at hname
    · cases hname
      simp only [clock, Operation.fixed] at he
      split at he
      · cases he
      · cases he
        exact rfl
    · simp [HostTable.resolve?] at hname
  have hlone : (env.eval lone).1 = .error (.arityMismatch (some "+") (.atLeast 2) 1) := by decide +kernel
  have hmisread : (env.eval misread).1 = .error (.arityMismatch none (.exactly 0) 1) := by decide +kernel
  have hfirst : (env.eval first).1 = .error (.emptyList "head") := by decide +kernel
  have hunbound : (env.eval unbound).1 = .error (.unboundSymbol "y") := by decide +kernel
  obtain ⟨hid, hblames⟩ := eval_blames env hreachable hhost
  exact ⟨hid, ⟨hlone, hblames lone _ hlone⟩, ⟨hmisread, hblames misread _ hmisread⟩,
    ⟨hfirst, (hblames first _ hfirst).2⟩, ⟨hunbound, (hblames unbound _ hunbound).2.1⟩⟩

end Environment

end ListLanguage
