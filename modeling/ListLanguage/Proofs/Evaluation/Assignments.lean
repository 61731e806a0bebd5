import ListLanguage.Proofs.Form.Nesting
import ListLanguage.Run

/-!
# What an evaluation does to the bindings

The **assignments** of a form are the names that it binds, in the order in which it binds them:
from left to right, and the name of a list whose head is an assignment after the names bound
inside the list. An evaluation that succeeds binds all of them, in that order; one that fails
has bound the first few. So nothing else about an evaluation matters for which names change.

The law is proved for computations first. A computation **performs** a listing of names if it
overwrites the bindings for the whole listing when it succeeds, and for a first part of it when
it fails. Computations in sequence perform their listings in sequence, so each clause of the
evaluator asks only for the listings of its parts.
-/

namespace ListLanguage

/-! ### The assignments of a form -/

namespace Form

/-- The name that a list with some elements binds, by an assignment at its head. -/
def target? : List Form → Option String
  | assign name :: _ => some name
  | _ => none

mutual

/-- The names that a form binds, in the order in which it binds them. -/
def assignments : Form → List String
  | list elements => assignmentsAll elements ++ (target? elements).toList
  | _ => []

/-- The names that some forms bind, in order. -/
def assignmentsAll : List Form → List String
  | [] => []
  | form :: forms => form.assignments ++ assignmentsAll forms

end

@[simp]
theorem assignmentsAll_eq_flatMap (forms : List Form) :
    assignmentsAll forms = forms.flatMap assignments := by
  induction forms with
  | nil => rfl
  | cons form forms ih => simp [assignmentsAll, ih]

theorem assignments_list (elements : List Form) :
    (list elements).assignments = elements.flatMap assignments ++ (target? elements).toList := by
  rw [assignments, assignmentsAll_eq_flatMap]

/-- An assignment on its own binds nothing; it is the list with it at the head that does. -/
@[simp]
theorem assignments_assign (name : String) : (assign name).assignments = [] := by
  simp [assignments]

end Form

/-! ### Overwriting bindings -/

namespace Bindings

/-- Bindings with some names bound anew, in order. -/
def overwrite (bindings : Bindings) (entries : List (String × Value)) : Bindings :=
  entries.foldl (fun b entry => b.insert entry.1 (.value entry.2)) bindings

@[simp]
theorem overwrite_nil (bindings : Bindings) : bindings.overwrite [] = bindings := rfl

@[simp]
theorem overwrite_append (bindings : Bindings) (es fs : List (String × Value)) :
    bindings.overwrite (es ++ fs) = (bindings.overwrite es).overwrite fs :=
  List.foldl_append

/-- After overwriting, a name is bound to one of the new values or as it was before; as it was
before if it is none of the overwritten names. -/
theorem getElem?_overwrite (bindings : Bindings) (entries : List (String × Value))
    (name : String) :
    ((∃ v, (bindings.overwrite entries)[name]? = some (.value v)) ∧ name ∈ entries.map Prod.fst) ∨
      (bindings.overwrite entries)[name]? = bindings[name]? := by
  induction entries generalizing bindings with
  | nil => exact .inr rfl
  | cons entry entries ih =>
    rcases ih (bindings.insert entry.1 (.value entry.2)) with ⟨hv, hmem⟩ | heq
    · exact .inl ⟨hv, List.mem_cons_of_mem _ hmem⟩
    · by_cases hname : entry.1 = name
      · refine .inl ⟨⟨entry.2, heq.trans ?_⟩, by simp [hname]⟩
        simp [hname]
      · refine .inr (heq.trans ?_)
        simp [Std.ExtTreeMap.getElem?_insert, hname]

/-- The bindings `after` are the bindings `before`, overwritten for the names in order. -/
def Assigned (before : Bindings) (names : List String) (after : Bindings) : Prop :=
  ∃ entries : List (String × Value),
    entries.map Prod.fst = names ∧ after = before.overwrite entries

theorem Assigned.refl (bindings : Bindings) : Assigned bindings [] bindings :=
  ⟨[], rfl, rfl⟩

theorem Assigned.trans {a b c : Bindings} {ms ns : List String} (hm : Assigned a ms b)
    (hn : Assigned b ns c) : Assigned a (ms ++ ns) c := by
  obtain ⟨es, rfl, rfl⟩ := hm
  obtain ⟨fs, rfl, rfl⟩ := hn
  exact ⟨es ++ fs, List.map_append, (overwrite_append a es fs).symm⟩

theorem Assigned.insert (bindings : Bindings) (name : String) (value : Value) :
    Assigned bindings [name] (bindings.insert name (.value value)) :=
  ⟨[(name, value)], rfl, rfl⟩

end Bindings

/-! ### Computations and the listings that they perform -/

namespace Evaluation

open Bindings

/-- A computation **performs** a listing of names: it overwrites the bindings for all of it if it
succeeds, and for a first part of it if it fails. -/
def Performs {α : Type} (m : Evaluation α) (names : List String) : Prop :=
  ∀ before, match m before with
    | .ok _ after => Assigned before names after
    | .error _ after => ∃ done, done <+: names ∧ Assigned before done after

variable {α β : Type}

theorem performs_pure (a : α) : Performs (pure a) [] :=
  fun before => Assigned.refl before

/-- A failure performs any listing: it has done nothing of it yet. -/
theorem performs_throw (e : EvalError) (names : List String) :
    Performs (throw e : Evaluation α) names :=
  fun before => ⟨[], List.nil_prefix, Assigned.refl before⟩

/-- Computations in sequence perform their listings in sequence. -/
theorem Performs.bind {m : Evaluation α} {f : α → Evaluation β} {ms ns : List String}
    (hm : Performs m ms) (hf : ∀ a, Performs (f a) ns) : Performs (m >>= f) (ms ++ ns) := by
  intro before
  have h := hm before
  simp only [Bind.bind, EStateM.bind]
  cases hmid : m before with
  | error e middle =>
    rw [hmid] at h
    obtain ⟨done, hdone, hassigned⟩ := h
    exact ⟨done, hdone.trans (List.prefix_append ms ns), hassigned⟩
  | ok a middle =>
    rw [hmid] at h
    have h' := hf a middle
    dsimp only
    cases hend : f a middle with
    | ok b after =>
      rw [hend] at h'
      exact h.trans h'
    | error e after =>
      rw [hend] at h'
      obtain ⟨done, hdone, hassigned⟩ := h'
      exact ⟨ms ++ done, (List.prefix_append_right_inj ms).mpr hdone, h.trans hassigned⟩

/-- What is done to the value of a computation changes nothing. -/
theorem Performs.map {m : Evaluation α} {names : List String} (hm : Performs m names)
    (f : α → β) : Performs (f <$> m) names := by
  have h : Performs (f <$> m) (names ++ []) := hm.bind fun a => performs_pure (f a)
  rwa [List.append_nil] at h

/-- A computation that reads the bindings first performs what it goes on to perform. -/
theorem performs_get_bind {f : Bindings → Evaluation α} {names : List String}
    (hf : ∀ b, Performs (f b) names) : Performs (get >>= f) names :=
  fun before => hf before before

theorem performs_lookup (name : String) : Performs (lookup name) [] := by
  refine performs_get_bind fun b => ?_
  split
  · exact performs_pure _
  · exact performs_pure _
  · exact performs_throw _ _

theorem performs_assign (name : String) (value : Value) : Performs (assign name value) [name] :=
  fun before => Assigned.insert before name value

theorem performs_apply (operation : Operation) (args : List Value) :
    Performs (apply operation args) [] := by
  rw [apply]
  split
  · exact performs_pure _
  · exact performs_throw _ _

end Evaluation

/-! ### The evaluator -/

namespace Dialect

open Evaluation Form

variable (d : Dialect) (depth : Nat)

/-- What the head of a list calls is an assignment only if the head is one. -/
theorem callee?_eq_assign {bindings : Bindings} {head : Form} {name : String}
    (h : d.callee? bindings head = some (.assign name)) : head = .assign name := by
  unfold callee? at h
  split at h
  · cases h
    rfl
  · split at h
    · cases h
    · obtain ⟨operation, -, heq⟩ := Option.map_eq_some_iff.mp h
      cases heq
  · cases h

/-- A head that calls an operation is a symbol, so it binds nothing and the list has no target. -/
theorem target?_of_callee?_ne {bindings : Bindings} {head : Form} (args : List Form)
    (h : ∀ name, d.callee? bindings head ≠ some (.assign name)) : target? (head :: args) = none := by
  cases head with
  | assign name => exact absurd rfl (h name)
  | _ => rfl

theorem assignments_of_callee?_eq_some {bindings : Bindings} {head : Form} {callee : Callee}
    (h : d.callee? bindings head = some callee) : head.assignments = [] := by
  cases head with
  | list elements => cases h
  | _ => rfl

theorem performs_evalEach {forms : List Form}
    (h : ∀ form ∈ forms, ∀ depth, Performs (d.evalAt depth form) form.assignments) :
    Performs (d.evalEach depth forms) (forms.flatMap assignments) := by
  induction forms with
  | nil => exact performs_pure []
  | cons form forms ih =>
    rw [evalEach, List.flatMap_cons]
    refine (h form List.mem_cons_self depth).bind fun v => ?_
    exact (ih fun f hf => h f (List.mem_cons_of_mem form hf)).map fun vs => v :: vs

/-- A list whose head calls an operation performs what its arguments perform. -/
theorem performs_call {operation : Operation} {args : List Form}
    (h : ∀ form ∈ args, ∀ depth, Performs (d.evalAt depth form) form.assignments) :
    Performs (d.evalEach depth args >>= apply operation) (args.flatMap assignments) := by
  have hcall := (performs_evalEach d depth h).bind (performs_apply operation)
  rwa [List.append_nil] at hcall

/-- An assignment performs what its argument performs and binds its name last. If it has not one
argument, it fails before it evaluates any. -/
theorem performs_evalList_assign (name : String) {args : List Form}
    (h : ∀ form ∈ args, ∀ depth, Performs (d.evalAt depth form) form.assignments) :
    Performs (d.evalList depth (.assign name :: args)) (args.flatMap assignments ++ [name]) := by
  rw [evalList]
  refine performs_get_bind fun bindings => ?_
  simp only [callee?]
  split
  · rename_i form
    have hform := h form List.mem_cons_self depth
    simpa using hform.bind (performs_assign name)
  · exact performs_throw _ _

/-- A list performs what its elements perform, and then binds its target if it has one. -/
theorem performs_evalList {elements : List Form}
    (h : ∀ form ∈ elements, ∀ depth, Performs (d.evalAt depth form) form.assignments) :
    Performs (d.evalList depth elements)
      (elements.flatMap assignments ++ (target? elements).toList) := by
  cases elements with
  | nil => exact performs_pure _
  | cons head args =>
    have hargs : ∀ form ∈ args, ∀ depth, Performs (d.evalAt depth form) form.assignments :=
      fun form hform => h form (List.mem_cons_of_mem head hform)
    by_cases hassign : ∃ name, head = .assign name
    · -- the name at the head is bound last
      obtain ⟨name, rfl⟩ := hassign
      simpa [target?] using performs_evalList_assign d depth name hargs
    · rw [evalList]
      refine performs_get_bind fun bindings => ?_
      have hne : ∀ name, d.callee? bindings head ≠ some (.assign name) :=
        fun name hname => hassign ⟨name, callee?_eq_assign d hname⟩
      rw [target?_of_callee?_ne d args hne, Option.toList_none, List.append_nil,
        List.flatMap_cons]
      -- the head calls an operation, or it is evaluated like the other elements
      split
      · exact absurd ‹_› (hne _)
      · rw [assignments_of_callee?_eq_some d ‹_›]
        exact performs_call d depth hargs
      · rw [assignments_of_callee?_eq_some d ‹_›]
        exact performs_call d depth hargs
      · refine (h head List.mem_cons_self depth).bind fun v => ?_
        exact (performs_evalEach d depth hargs).map fun vs => Value.list (v :: vs)

/-- **Step law**: evaluating a form performs its assignments. -/
theorem performs_evalAt (form : Form) : Performs (d.evalAt depth form) form.assignments := by
  induction form using nestingInduction generalizing depth with
  | number x => exact performs_pure _
  | string stored => exact performs_pure _
  | symbol name => exact performs_lookup name
  | assign name => exact performs_throw _ _
  | list elements ih =>
    rw [evalAt, assignments_list]
    split
    · exact performs_throw _ _
    · exact performs_evalList d (depth + 1) fun form hform depth => ih form hform depth

/-- **Run law**: evaluating some forms in order performs their assignments in order. -/
theorem performs_evalLast (forms : List Form) :
    Performs (d.evalLast forms) (forms.flatMap assignments) := by
  have hfrom : ∀ last : Option Value,
      Performs (forms.foldlM (fun _ form => some <$> d.eval form) last)
        (forms.flatMap assignments) := by
    induction forms with
    | nil => exact fun last => performs_pure last
    | cons form forms ih =>
      intro last
      rw [List.foldlM_cons, List.flatMap_cons]
      exact ((performs_evalAt d 0 form).map some).bind ih
  exact hfrom none

/-- Evaluating forms in order returns no value only if there is no form. -/
theorem evalLast_eq_ok_none {forms : List Form} {before after : Bindings}
    (h : d.evalLast forms before = .ok none after) : forms = [] ∧ after = before := by
  -- with a value in hand, one is returned
  have hsome : ∀ (forms : List Form) (v : Value) (before : Bindings),
      forms.foldlM (fun _ form => some <$> d.eval form) (some v) before ≠ .ok none after := by
    intro forms
    induction forms with
    | nil =>
      intro v before hnone
      cases hnone
    | cons form forms ih =>
      intro v before hnone
      rw [List.foldlM_cons] at hnone
      -- the value of the next form is the one in hand from then on
      simp only [Bind.bind, EStateM.bind, Functor.map, EStateM.map] at hnone
      cases hform : d.eval form before with
      | ok u middle =>
        rw [hform] at hnone
        exact ih u middle hnone
      | error e middle =>
        rw [hform] at hnone
        cases hnone
  rw [evalLast] at h
  cases forms with
  | nil =>
    cases h
    exact ⟨rfl, rfl⟩
  | cons form forms =>
    rw [List.foldlM_cons] at h
    simp only [Bind.bind, EStateM.bind, Functor.map, EStateM.map] at h
    cases hform : d.eval form before with
    | ok v middle =>
      rw [hform] at h
      exact absurd h (hsome forms v middle)
    | error e middle =>
      rw [hform] at h
      cases h

end Dialect

/-! ### Environments -/

namespace Environment

open Bindings Form

/-- The names that a program binds: those of its expanded forms, in order. A source that fails
before evaluation has no expanded forms. -/
def assignments (env : Environment) (source : String) (lenient : Bool := false) : List String :=
  match env.toDialect.program source lenient with
  | .ok forms => forms.flatMap Form.assignments
  | .error _ => []

/-- What an outcome can have done to the environment `before`, given the names to be bound: the
dialect stays, and the bindings are overwritten by values for a first part of the names, which is
all of them if the outcome is a success. -/
structure Effect {ε : Type} (before : Environment) (names : List String)
    (outcome : Except ε Value × Environment) : Prop where
  dialect : outcome.2.toDialect = before.toDialect
  bindings : ∃ done, done <+: names ∧ Assigned before.bindings done outcome.2.bindings ∧
    (outcome.1.isOk → done = names)

variable {ε : Type} {before : Environment} {names : List String}
  {outcome : Except ε Value × Environment}

/-- An effect binds each name to a value or leaves it as it was, and it leaves every name as it
was that is not to be bound. -/
theorem Effect.get?_eq (h : Effect before names outcome) (name : String) :
    ((∃ v, outcome.2.get? name = some (.value v)) ∧ name ∈ names) ∨
      outcome.2.get? name = before.get? name := by
  obtain ⟨done, hdone, ⟨entries, rfl, hafter⟩, -⟩ := h.bindings
  rw [get?]
  rw [hafter]
  -- a name that was bound is among the first few of the names to be bound
  rcases getElem?_overwrite before.bindings entries name with ⟨hv, hmem⟩ | heq
  · exact .inl ⟨hv, hdone.subset hmem⟩
  · exact .inr heq

/-- No name is unbound by an effect. -/
theorem Effect.isSome_get? (h : Effect before names outcome) {name : String}
    (hname : (before.get? name).isSome) : (outcome.2.get? name).isSome := by
  rcases h.get?_eq name with ⟨⟨v, hv⟩, -⟩ | heq
  · simp [hv]
  · rwa [heq]

/-- No name comes to stand for an operation of the language by an effect. -/
theorem Effect.get?_eq_builtin (h : Effect before names outcome) {name : String} {op : Builtin}
    (hname : outcome.2.get? name = some (.builtin op)) : before.get? name = some (.builtin op) := by
  rcases h.get?_eq name with ⟨⟨v, hv⟩, -⟩ | heq
  · rw [hv] at hname
    cases hname
  · rwa [← heq]

/-- A name that is not to be bound stays as it was. -/
theorem Effect.get?_of_notMem (h : Effect before names outcome) {name : String}
    (hname : name ∉ names) : outcome.2.get? name = before.get? name := by
  rcases h.get?_eq name with ⟨-, hmem⟩ | heq
  · exact absurd hmem hname
  · exact heq

theorem effect_eval (env : Environment) (form : Form) :
    Effect env form.assignments (env.eval form) := by
  have h := env.toDialect.performs_evalAt 0 form env.bindings
  rw [eval, Dialect.eval]
  cases hresult : env.toDialect.evalAt 0 form env.bindings with
  | ok v after =>
    rw [hresult] at h
    exact ⟨rfl, form.assignments, List.prefix_rfl, h, fun _ => rfl⟩
  | error e after =>
    rw [hresult] at h
    obtain ⟨done, hdone, hassigned⟩ := h
    exact ⟨rfl, done, hdone, hassigned, fun hok => absurd hok (by simp [Except.isOk, Except.toBool])⟩

/-- A run that fails before evaluation leaves its environment alone. -/
theorem run_of_program_eq_error {env : Environment} {source : String} {lenient : Bool} {e : Error}
    (h : env.toDialect.program source lenient = .error e) :
    env.run source lenient = (.error e, env) := by
  simp only [run, h]

theorem effect_run (env : Environment) (source : String) (lenient : Bool) :
    Effect env (env.assignments source lenient) (env.run source lenient) := by
  cases hprogram : env.toDialect.program source lenient with
  | error e =>
    rw [run_of_program_eq_error hprogram]
    refine ⟨rfl, [], List.nil_prefix, Assigned.refl _, fun hok => ?_⟩
    exact absurd hok (by simp [Except.isOk, Except.toBool])
  | ok forms =>
    have h := env.toDialect.performs_evalLast forms env.bindings
    simp only [run, assignments, hprogram, Dialect.evalProgram]
    cases hresult : env.toDialect.evalLast forms env.bindings with
    | ok last after =>
      rw [hresult] at h
      cases last with
      | some v => exact ⟨rfl, _, List.prefix_rfl, h, fun _ => rfl⟩
      | none => exact ⟨rfl, _, List.prefix_rfl, h, fun _ => rfl⟩
    | error e after =>
      rw [hresult] at h
      obtain ⟨done, hdone, hassigned⟩ := h
      refine ⟨rfl, done, hdone, hassigned, fun hok => ?_⟩
      exact absurd hok (by simp [Except.isOk, Except.toBool])

/-- A run that fails outside evaluation leaves its environment alone: before evaluation nothing
is evaluated, and at the end only a program without forms fails. -/
theorem run_of_stage_ne_evaluation {env : Environment} {source : String} {lenient : Bool}
    {e : Error} (h : (env.run source lenient).1 = .error e) (he : e.stage ≠ .evaluation) :
    (env.run source lenient).2 = env := by
  cases hprogram : env.toDialect.program source lenient with
  | error e' => rw [run_of_program_eq_error hprogram]
  | ok forms =>
    simp only [run, hprogram, Dialect.evalProgram] at h ⊢
    cases hresult : env.toDialect.evalLast forms env.bindings with
    | ok last after =>
      cases last with
      | some v => simp [hresult] at h
      | none => rw [(env.toDialect.evalLast_eq_ok_none hresult).2]
    | error e' after =>
      rw [hresult] at h
      cases h
      exact absurd rfl he

/-- **Effect law.** An evaluation binds the assignments of its form, and a run those of its
expanded forms: a first part of them in order, all of them on success, and none if the run fails
at another stage than evaluation. So it unbinds no name, makes no name stand for an operation of
the language, and leaves every other name alone. -/
theorem evaluation_effect (env : Environment) :
    (∀ form, Effect env form.assignments (env.eval form)) ∧
      (∀ source lenient, Effect env (env.assignments source lenient) (env.run source lenient) ∧
        ∀ e, (env.run source lenient).1 = .error e → e.stage ≠ .evaluation →
          (env.run source lenient).2 = env) ∧
      ∀ {ε : Type} (names : List String) (outcome : Except ε Value × Environment),
        Effect env names outcome → ∀ name,
          ((env.get? name).isSome → (outcome.2.get? name).isSome) ∧
          (∀ op, outcome.2.get? name = some (.builtin op) → env.get? name = some (.builtin op)) ∧
          (name ∉ names → outcome.2.get? name = env.get? name) := by
  refine ⟨effect_eval env, fun source lenient => ?_, fun names outcome h name => ?_⟩
  · exact ⟨effect_run env source lenient, fun e => run_of_stage_ne_evaluation⟩
  · exact ⟨h.isSome_get?, fun op => h.get?_eq_builtin, h.get?_of_notMem⟩

end Environment

end ListLanguage
