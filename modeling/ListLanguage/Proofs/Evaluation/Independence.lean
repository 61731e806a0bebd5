import ListLanguage.Proofs.Evaluation.Dependence

/-!
# Forms that do not touch one another

Two forms are **independent** if neither binds a name that the other one binds or mentions. In which
order they are evaluated makes no difference then: each of them has the result that it has without the
other, and the bindings left are the same (`Environment.eval_eval_comm`), also where an evaluation
fails. In particular two evaluations that succeed may be swapped (`Environment.eval_swap`).

Two facts about evaluation come together here. What a form binds leaves all other names alone, so the
names that the second form mentions are bound as before. And an evaluation depends on the mentioned
names only, so the second form does what it does without the first. For the bindings that are left, a
name is looked at from the side of the form that does not bind it.
-/

namespace ListLanguage

/-- Two forms are **independent** if neither of them binds a name that the other one binds or
mentions. -/
structure Form.Independent (f g : Form) : Prop where
  left : ∀ name ∈ f.assignments, name ∉ g.assignments ∧ name ∉ g.mentions
  right : ∀ name ∈ g.assignments, name ∉ f.assignments ∧ name ∉ f.mentions

theorem Form.Independent.symm {f g : Form} (h : f.Independent g) : g.Independent f :=
  ⟨h.right, h.left⟩

namespace Environment

/-- Environments are the same if they have the same dialect and names stand for the same in them. -/
theorem eq_of_get?_eq {env other : Environment} (hdialect : env.toDialect = other.toDialect)
    (hnames : ∀ name, env.get? name = other.get? name) : env = other := by
  have hbindings : env.bindings = other.bindings := Std.ExtTreeMap.ext_getElem? hnames
  cases env
  cases other
  cases hdialect
  cases hbindings
  rfl

variable {f g : Form} (env : Environment)

/-- An evaluation leaves the dialect as it was. -/
@[simp]
theorem toDialect_eval (form : Form) : (env.eval form).2.toDialect = env.toDialect :=
  (effect_eval env form).dialect

/-- A name that a form does not bind is left as it was. -/
theorem get?_eval_of_notMem {name : String} (h : name ∉ f.assignments) :
    (env.eval f).2.get? name = env.get? name :=
  (effect_eval env f).get?_of_notMem h

/-- A form has the result behind an independent one that it has without it, and a name that it binds
is bound to the same value. -/
theorem eval_behind (h : f.Independent g) :
    ((env.eval f).2.eval g).1 = (env.eval g).1 ∧ ∀ name,
      ((env.eval g).2.get? name = env.get? name ∧
        ((env.eval f).2.eval g).2.get? name = (env.eval f).2.get? name) ∨
      ((env.eval f).2.eval g).2.get? name = (env.eval g).2.get? name := by
  have hdialect : env.toDialect.AgreeOn g.mentions (env.eval f).2.toDialect := by
    rw [toDialect_eval]
    exact ⟨rfl, fun _ _ => rfl⟩
  -- what the second form mentions is not bound by the first one
  have hbindings : env.bindings.AgreeOn g.mentions (env.eval f).2.bindings :=
    fun name hname => env.get?_eval_of_notMem fun hbinds => (h.left name hbinds).2 hname
  obtain ⟨result, entries, heval, hbehind⟩ :=
    exists_eval_eq_overwrite env (env.eval f).2 g hdialect hbindings
  rw [heval, hbehind]
  refine ⟨rfl, fun name => ?_⟩
  rcases Bindings.getElem?_overwrite_both env.bindings (env.eval f).2.bindings entries name with
    hkept | ⟨v, hv, hv'⟩
  · exact .inl hkept
  · exact .inr (hv'.trans hv.symm)

/-- What the first of two independent forms does not bind is left the same by both orders. -/
theorem get?_eval_eval_of_notMem (h : f.Independent g) {name : String} (hname : name ∉ f.assignments) :
    ((env.eval f).2.eval g).2.get? name = ((env.eval g).2.eval f).2.get? name := by
  rw [get?_eval_of_notMem (env.eval g).2 hname]
  rcases (env.eval_behind h).2 name with ⟨hkept, hkept'⟩ | hsame
  · rw [hkept, hkept', env.get?_eval_of_notMem hname]
  · exact hsame

/-- **Independent forms commute**, whether their evaluations succeed or fail: each of them has the same
result in both orders, and the same environment is left. -/
theorem eval_eval_comm (h : f.Independent g) :
    ((env.eval f).2.eval g).1 = (env.eval g).1 ∧ ((env.eval g).2.eval f).1 = (env.eval f).1 ∧
      ((env.eval f).2.eval g).2 = ((env.eval g).2.eval f).2 := by
  refine ⟨(env.eval_behind h).1, (env.eval_behind h.symm).1, eq_of_get?_eq ?_ fun name => ?_⟩
  · simp only [toDialect_eval]
  · -- a name is not bound by both of them
    by_cases hname : name ∈ f.assignments
    · exact (env.get?_eval_eval_of_notMem h.symm (h.left name hname).1).symm
    · exact env.get?_eval_eval_of_notMem h hname

/-- **Swapping independent evaluations.** Let neither of two forms bind a name that the other one binds
or mentions. If the one evaluates to a value and then the other one does, they evaluate to the same
values in the other order, and the same environment is left. -/
theorem eval_swap (h : f.Independent g) {u v : Value} {middle after : Environment}
    (hf : env.eval f = (.ok u, middle)) (hg : middle.eval g = (.ok v, after)) :
    ∃ other, env.eval g = (.ok v, other) ∧ other.eval f = (.ok u, after) := by
  obtain ⟨hsecond, hfirst, hleft⟩ := env.eval_eval_comm h
  rw [hf, hg] at hsecond hleft
  rw [hf] at hfirst
  exact ⟨(env.eval g).2, Prod.ext hsecond.symm rfl, Prod.ext hfirst hleft.symm⟩

/-- One form binds a name inside the argument of a call, and the other one binds the name of an operation
to a string and mentions it afterwards. The form with the call does not mention that operation. -/
theorem eval_swap_shadowed :
    let f : Form := .list [.symbol "head", .list [.list [.assign "a", .string "'x'"], .symbol "a"]]
    let g : Form := .list [.list [.assign "+", .string "'y'"], .symbol "+"]
    f.Independent g ∧ ∃ middle other after,
      standard.eval f = (.ok (.string "'x'"), middle) ∧
      middle.eval g = (.ok (.list [.string "'y'", .string "'y'"]), after) ∧
      standard.eval g = (.ok (.list [.string "'y'", .string "'y'"]), other) ∧
      other.eval f = (.ok (.string "'x'"), after) := by
  intro f g
  have h : f.Independent g := by
    constructor
    all_goals simp [f, g, Form.assignments, Form.target?, Form.mentions, Form.leaves]
  have hf : standard.eval f = (.ok (.string "'x'"), (standard.eval f).2) := rfl
  have hg : (standard.eval f).2.eval g =
      (.ok (.list [.string "'y'", .string "'y'"]), ((standard.eval f).2.eval g).2) := rfl
  obtain ⟨other, hg', hf'⟩ := eval_swap standard h hf hg
  exact ⟨h, _, other, _, hf, hg, hg', hf'⟩

end Environment

end ListLanguage
