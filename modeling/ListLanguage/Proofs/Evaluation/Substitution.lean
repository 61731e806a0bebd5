import ListLanguage.Host
import ListLanguage.Proofs.Evaluation.Congruence
import ListLanguage.Proofs.Evaluation.Invariant
import ListLanguage.Proofs.Evaluation.Reified

/-!
# Writing out the value of a name

A name that stands for a value can be replaced by the value, written out as a form: the form in which
every symbol of that name is replaced evaluates as the form itself does, to the same value or the same
error, and it leaves the same bindings (`Environment.eval_substitute`).

A symbol is evaluated in one way as the head of a list and in another way elsewhere. As a head it is
first asked what it calls. The name of a value calls nothing, unless the host has an operation under
it, and a written value calls nothing either (`Dialect.callee?_substitute`); so where a symbol is
replaced at the head, the list is data before and after.

The name has to stand for the value throughout, so no assignment in the form may bind it. Two
computations **agree while** a name is bound to a value if they have the same outcome wherever it is,
and leave it so bound (`Evaluation.AgreeWhile`). That is a congruence, and it holds of the symbol and
of the written value.
-/

namespace ListLanguage

/-! ### Replacing a symbol -/

namespace Form

mutual

/-- The form with another form in the place of every symbol of a name. -/
def substitute (form : Form) (name : String) (replacement : Form) : Form :=
  match form with
  | symbol other => if other = name then replacement else symbol other
  | list elements => list (substituteAll elements name replacement)
  | form => form

/-- Some forms with another form in the place of every symbol of a name. -/
def substituteAll (forms : List Form) (name : String) (replacement : Form) : List Form :=
  match forms with
  | [] => []
  | form :: forms => form.substitute name replacement :: substituteAll forms name replacement

end

variable {name : String} {replacement : Form}

@[simp]
theorem substituteAll_eq_map (forms : List Form) :
    substituteAll forms name replacement = forms.map (substitute · name replacement) := by
  induction forms with
  | nil => rfl
  | cons form forms ih => simp [substituteAll, ih]

@[simp]
theorem substitute_list (elements : List Form) :
    (list elements).substitute name replacement =
      list (elements.map (substitute · name replacement)) := by
  rw [substitute, substituteAll_eq_map]

@[simp]
theorem substitute_symbol_self : (symbol name).substitute name replacement = replacement := by
  rw [substitute, if_pos rfl]

@[simp]
theorem substitute_symbol_of_ne {other : String} (h : other ≠ name) :
    (symbol other).substitute name replacement = symbol other := by
  rw [substitute, if_neg h]

/-- What lies in a list and is replaced there lies less deep than the list. -/
theorem depth_substitute_lt_of_mem {elements : List Form} {form : Form} (h : form ∈ elements) :
    (form.substitute name replacement).depth <
      ((list elements).substitute name replacement).depth := by
  rw [substitute_list]
  exact depth_lt_of_mem (List.mem_map_of_mem h)

end Form

/-! ### Computations that agree while a name is bound -/

namespace Evaluation

variable {α β : Type} {name : String} {v : Value} {x x' : Evaluation α}

/-- Two computations **agree while** a name is bound to a value: wherever it is, they have the same
outcome, and it still is after a success. -/
def AgreeWhile (name : String) (v : Value) (x x' : Evaluation α) : Prop :=
  ∀ before, before[name]? = some (.value v) → x' before = x before ∧
    ∀ a after, x before = .ok a after → after[name]? = some (.value v)

/-- The same computation agrees with itself while a name is bound that it leaves alone. -/
theorem AgreeWhile.refl
    (h : ∀ before a after, x before = .ok a after → after[name]? = before[name]?) :
    AgreeWhile name v x x :=
  fun before hbound => ⟨rfl, fun a after hx => (h before a after hx).trans hbound⟩

/-- Computations in sequence agree as long as each of them does. -/
theorem AgreeWhile.bind {f f' : α → Evaluation β} (hx : AgreeWhile name v x x')
    (hf : ∀ a, AgreeWhile name v (f a) (f' a)) : AgreeWhile name v (x >>= f) (x' >>= f') := by
  intro before hbound
  obtain ⟨hsame, hkeeps⟩ := hx before hbound
  simp only [Bind.bind, EStateM.bind, hsame]
  cases hmid : x before with
  | error e middle => exact ⟨rfl, fun b after hb => by cases hb⟩
  | ok a middle => exact hf a middle (hkeeps a middle hmid)

/-- Agreeing while a name is bound is a congruence, where both computations read the same bindings
and the name is bound in them. -/
theorem isCongruence_agreeWhile (name : String) (v : Value) :
    IsCongruence (fun b b' => b' = b ∧ b[name]? = some (.value v)) (AgreeWhile name v) where
  pure a := .refl fun before b after h => by cases h; rfl
  throw e := .refl fun before b after h => by cases h
  bind := AgreeWhile.bind
  get_bind hf before hbound := hf before before ⟨rfl, hbound⟩ before hbound

theorem agreeWhile_assign {other : String} (h : other ≠ name) (u : Value) :
    AgreeWhile name v (assign other u) (assign other u) := by
  refine .refl fun before a after hassign => ?_
  cases hassign
  simp [Std.ExtTreeMap.getElem?_insert, h]

end Evaluation

/-! ### The evaluator -/

namespace Dialect

open Evaluation Form

variable {d : Dialect} {name : String} {v : Value}

/-- A head calls the same after a name is replaced that stands for a value: the name calls nothing,
and neither does the written value. -/
theorem callee?_substitute {bindings : Bindings} (hbound : bindings[name]? = some (.value v))
    (hcallable : Value.callable ∉ v.leaves) (hresolve : d.resolve? name = none) (head : Form) :
    d.callee? bindings (head.substitute name v.reify) = d.callee? bindings head := by
  cases head with
  | symbol other =>
    by_cases hname : other = name
    · subst hname
      rw [substitute_symbol_self, d.callee?_reify hcallable, callee?, hbound, hresolve]
      rfl
    · rw [substitute_symbol_of_ne hname]
  | _ => rfl

/-- A symbol agrees with the written value of its name, where that is not too deep. -/
theorem agreeWhile_lookup_reify {depth : Nat} (hcallable : Value.callable ∉ v.leaves)
    (hlimit : depth + v.depth ≤ d.limit) :
    AgreeWhile name v (lookup name) (d.evalAt depth v.reify) := by
  intro before hbound
  have hlookup : lookup name before = .ok v before := by
    rw [lookup, get_bind_apply, hbound]
    rfl
  rw [hlookup, d.evalAt_reify hcallable hlimit]
  refine ⟨rfl, fun u after h => ?_⟩
  cases h
  exact hbound

/-- **Step law**: while a name is bound to a value, a form that does not assign to it evaluates as the
form in which the value is written in its place. -/
theorem agreeWhile_evalAt_substitute (hcallable : Value.callable ∉ v.leaves)
    (hresolve : d.resolve? name = none) {form : Form} (hassign : .assign name ∉ form.leaves)
    {depth : Nat} (hlimit : depth + (form.substitute name v.reify).depth ≤ d.limit) :
    AgreeWhile name v (d.evalAt depth form) (d.evalAt depth (form.substitute name v.reify)) := by
  have hcongruence := isCongruence_agreeWhile name v
  induction form using nestingInduction generalizing depth with
  | number x => exact hcongruence.pure _
  | string stored => exact hcongruence.pure _
  | symbol other =>
    by_cases hname : other = name
    · subst hname
      rw [substitute_symbol_self, Value.depth_reify] at hlimit
      rw [substitute_symbol_self]
      exact agreeWhile_lookup_reify hcallable hlimit
    · rw [substitute_symbol_of_ne hname]
      exact hcongruence.lookup fun b b' hb => by rw [hb.1]
  | assign other => exact hcongruence.throw _
  | list elements ih =>
    have helements : ∀ form ∈ elements, AgreeWhile name v (d.evalAt (depth + 1) form)
        (d.evalAt (depth + 1) (form.substitute name v.reify)) := by
      intro form hform
      have hlt : (form.substitute name v.reify).depth <
          ((list elements).substitute name v.reify).depth := depth_substitute_lt_of_mem hform
      exact ih form hform (fun hleaf => hassign (mem_leaves_list hform hleaf)) (by omega)
    rw [substitute_list, depth_list] at hlimit
    rw [substitute_list, evalAt, evalAt, if_neg (by omega), if_neg (by omega)]
    cases elements with
    | nil => exact hcongruence.pure _
    | cons head args =>
      obtain ⟨hhead, hargs⟩ := List.forall_mem_cons.mp helements
      refine hcongruence.evalList_cons (fun b b' hb => ?_) (fun other hother u => ?_) hhead ?_
      · rw [hb.1, callee?_substitute hb.2 hcallable hresolve]
      · -- the name that an assignment at the head binds is another one
        subst hother
        refine agreeWhile_assign (fun hname => hassign ?_) u
        rw [hname, leaves_list]
        simp [leaves_of_depth_eq_zero]
      · exact List.forall₂_map_right_iff.mpr (List.forall₂_same.mpr hargs)

end Dialect

/-! ### Environments -/

namespace Environment

/-- **A name can be replaced by its value.** Let a name be bound to a value in which there is no
operation, let the host have no operation under the name, and let no assignment in a form bind it.
If the form in which the value is written for every symbol of the name keeps the limit on nesting, it
evaluates as the form itself does, with the same result and the same bindings left. -/
theorem eval_substitute (env : Environment) {name : String} {v : Value} {form : Form}
    (hbound : env.get? name = some (.value v)) (hcallable : .callable ∉ v.leaves)
    (hresolve : env.resolve? name = none) (hassign : .assign name ∉ form.leaves)
    (hlimit : (form.substitute name v.reify).depth ≤ env.limit) :
    env.eval (form.substitute name v.reify) = env.eval form := by
  have hroom : 0 + (form.substitute name v.reify).depth ≤ env.limit := by rwa [Nat.zero_add]
  have hagree := Dialect.agreeWhile_evalAt_substitute hcallable hresolve hassign hroom
  rw [eval, eval, Dialect.eval, Dialect.eval, (hagree env.bindings hbound).1]

/-- A name that stands for a list is replaced at the head of a list, in an argument of a call inside an
assignment, and in front of a symbol that is not bound. With and without it the evaluation fails at
that symbol, and the assignment before it is kept. The limit is the depth after the replacement, and
the host has an operation under the name that is assigned to. -/
theorem eval_substitute_pair :
    let v : Value := .list [.ofInt 1, .ofContent "a"]
    let host := ({} : HostTable).insert "y" fun args => .ok (.list args)
    let env := ((standard.define "x" v).setResolver host.resolve?).setLimit 4
    let form : Form := .list [.symbol "x", .list [.assign "y", .list [.symbol "head", .symbol "x"]],
      .list [.symbol "x", .symbol "z"]]
    (form.substitute "x" v.reify).depth = 4 ∧
      env.eval (form.substitute "x" v.reify) = env.eval form ∧
      (env.eval form).1 = .error (.unboundSymbol "z") ∧ ((env.eval form).2.get? "y").isSome := by
  intro v host env form
  have hdepth : (form.substitute "x" v.reify).depth = 4 := by decide
  refine ⟨hdepth, eval_substitute env rfl ?_ rfl ?_ hdepth.le, by decide +kernel, by decide +kernel⟩
  · simp [v, Value.ofInt, Value.ofContent, Value.leaves]
  · simp [form, Form.leaves]

end Environment

end ListLanguage
