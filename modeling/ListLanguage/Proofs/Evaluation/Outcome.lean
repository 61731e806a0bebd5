import ListLanguage.Proofs.Evaluation.Invariant

/-!
# What the outcome of an evaluation tells

A computation that succeeds has succeeded in each of its steps, and one that fails has failed in one
of them, with the bindings that this step left. So the outcome of evaluating a list is taken apart
once: after a success, every element has been evaluated, except a head that was called
(`Dialect.depth_eq_zero_or_of_evalList_eq_ok`); and a failure has one of four causes, an element that
fails, an assignment whose arguments are miscounted, or an operation that fails, of the language or of
the host (`Dialect.ListFailure`).
-/

namespace ListLanguage

/-! ### Computations -/

namespace Evaluation

variable {α β : Type} {x : Evaluation α} {f : α → Evaluation β} {before after : Bindings} {b : β}
  {e : EvalError}

theorem bind_eq_ok_iff :
    (x >>= f) before = .ok b after ↔
      ∃ a middle, x before = .ok a middle ∧ f a middle = .ok b after := by
  simp only [Bind.bind, EStateM.bind]
  cases x before with
  | ok a middle => simp
  | error e middle => simp

theorem bind_eq_error_iff :
    (x >>= f) before = .error e after ↔ x before = .error e after ∨
      ∃ a middle, x before = .ok a middle ∧ f a middle = .error e after := by
  simp only [Bind.bind, EStateM.bind]
  cases x before with
  | ok a middle => simp
  | error e middle => simp

theorem lookup_eq_error {name : String} (h : lookup name before = .error e after) :
    before[name]? = none ∧ e = .unboundSymbol name ∧ after = before := by
  rw [lookup, get_bind_apply] at h
  cases hname : before[name]? with
  | none =>
    rw [hname] at h
    cases h
    exact ⟨rfl, rfl, rfl⟩
  | some binding =>
    rw [hname] at h
    cases binding <;> cases h

theorem apply_eq_error {operation : Operation} {args : List Value}
    (h : apply operation args before = .error e after) : operation args = .error e := by
  rw [apply] at h
  cases hresult : operation args with
  | ok v =>
    rw [hresult] at h
    cases h
  | error e' =>
    rw [hresult] at h
    cases h
    rfl

end Evaluation

/-! ### The evaluator -/

namespace Dialect

open Evaluation Form

variable {d : Dialect} {depth : Nat} {forms elements : List Form} {before after : Bindings}
  {v : Value} {vs : List Value} {e : EvalError}

/-- What is called is no list. -/
theorem depth_eq_zero_of_callee?_eq_some {head : Form} {callee : Callee}
    (h : d.callee? before head = some callee) : head.depth = 0 := by
  cases head with
  | list elements => cases h
  | _ => simp

/-- A head that calls an operation of the language is a name that is bound to it. -/
theorem exists_of_callee?_eq_builtin {head : Form} {op : Builtin}
    (h : d.callee? before head = some (.builtin op)) :
    ∃ name, head = .symbol name ∧ before[name]? = some (.builtin op) := by
  unfold callee? at h
  split at h
  · cases h
  · rename_i name
    split at h
    · cases h
      exact ⟨name, rfl, ‹_›⟩
    · obtain ⟨operation, -, heq⟩ := Option.map_eq_some_iff.mp h
      cases heq
  · cases h

/-- Forms that are evaluated one after another yield a value each. -/
theorem of_evalEach_eq_ok (h : d.evalEach depth forms before = .ok vs after) :
    vs.length = forms.length ∧
      ∀ form ∈ forms, ∃ b v b', d.evalAt depth form b = .ok v b' := by
  induction forms generalizing before vs with
  | nil =>
    cases h
    exact ⟨rfl, by simp⟩
  | cons form forms ih =>
    rw [evalEach] at h
    obtain ⟨v, middle, hform, h⟩ := bind_eq_ok_iff.mp h
    obtain ⟨rest, last, hforms, hpure⟩ := bind_eq_ok_iff.mp h
    cases hpure
    obtain ⟨hlength, hrest⟩ := ih hforms
    exact ⟨congrArg (· + 1) hlength, List.forall_mem_cons.mpr ⟨⟨_, _, _, hform⟩, hrest⟩⟩

/-- A form that is evaluated to a value has bound its assignments. -/
theorem assigned_of_evalAt_eq_ok {form : Form} (h : d.evalAt depth form before = .ok v after) :
    before.Assigned form.assignments after := by
  have hperforms := d.performs_evalAt depth form before
  rwa [h] at hperforms

/-- Of forms that are evaluated one after another, one fails if they do, after the ones before it have
bound some names. -/
theorem exists_of_evalEach_eq_error (h : d.evalEach depth forms before = .error e after) :
    ∃ form ∈ forms, ∃ names b, before.Assigned names b ∧ d.evalAt depth form b = .error e after := by
  induction forms generalizing before with
  | nil => cases h
  | cons form forms ih =>
    rw [evalEach] at h
    rcases bind_eq_error_iff.mp h with hform | ⟨v, middle, hform, h⟩
    · exact ⟨form, List.mem_cons_self, [], before, .refl before, hform⟩
    · rcases bind_eq_error_iff.mp h with hforms | ⟨rest, last, -, hpure⟩
      · obtain ⟨other, hother, names, b, hb, hfail⟩ := ih hforms
        exact ⟨other, List.mem_cons_of_mem form hother, _, b,
          (assigned_of_evalAt_eq_ok hform).trans hb, hfail⟩
      · cases hpure

/-- A list whose head calls nothing is data: its elements are evaluated, the head first. -/
theorem evalList_of_callee?_eq_none {head : Form} {args : List Form}
    (h : d.callee? before head = none) :
    d.evalList depth (head :: args) before =
      (d.evalEach depth (head :: args) >>= fun vs => pure (Value.list vs) : Evaluation Value)
        before := by
  rw [evalList, get_bind_apply, h, evalEach]
  simp only [bind_assoc, pure_bind]

/-- The arguments of a call are evaluated and then given to the operation. -/
theorem of_call_eq_ok {operation : Operation}
    (h : (d.evalEach depth forms >>= apply operation) before = .ok v after) :
    ∀ form ∈ forms, ∃ b u b', d.evalAt depth form b = .ok u b' := by
  obtain ⟨vs, middle, hvs, -⟩ := bind_eq_ok_iff.mp h
  exact (of_evalEach_eq_ok hvs).2

/-- A call fails in an argument or in the operation. -/
theorem of_call_eq_error {operation : Operation}
    (h : (d.evalEach depth forms >>= apply operation) before = .error e after) :
    (∃ form ∈ forms, ∃ names b, before.Assigned names b ∧ d.evalAt depth form b = .error e after) ∨
      ∃ vs : List Value, vs.length = forms.length ∧ operation vs = .error e := by
  rcases bind_eq_error_iff.mp h with hargs | ⟨vs, middle, hvs, happly⟩
  · exact .inl (exists_of_evalEach_eq_error hargs)
  · exact .inr ⟨vs, (of_evalEach_eq_ok hvs).1, apply_eq_error happly⟩

/-- When a list is evaluated to a value, every element is, except for a head that is called and so is
no list. -/
theorem depth_eq_zero_or_of_evalList_eq_ok (h : d.evalList depth elements before = .ok v after) :
    ∀ form ∈ elements, form.depth = 0 ∨ ∃ b u b', d.evalAt depth form b = .ok u b' := by
  cases elements with
  | nil => simp
  | cons head args =>
    cases hcallee : d.callee? before head with
    | none =>
      rw [evalList_of_callee?_eq_none hcallee] at h
      obtain ⟨vs, middle, hvs, -⟩ := bind_eq_ok_iff.mp h
      exact fun form hform => .inr ((of_evalEach_eq_ok hvs).2 form hform)
    | some callee =>
      -- a head that is called is passed by, and all that is left are its arguments
      have hargs : ∀ form ∈ args, ∃ b u b', d.evalAt depth form b = .ok u b' := by
        rw [evalList, get_bind_apply, hcallee] at h
        cases callee with
        | assign name =>
          dsimp only at h
          split at h
          · obtain ⟨u, middle, hform, -⟩ := bind_eq_ok_iff.mp h
            exact List.forall_mem_singleton.mpr ⟨_, _, _, hform⟩
          · cases h
        | builtin op => exact of_call_eq_ok h
        | host operation => exact of_call_eq_ok h
      refine List.forall_mem_cons.mpr ⟨.inl (depth_eq_zero_of_callee?_eq_some hcallee), ?_⟩
      exact fun form hform => .inr (hargs form hform)

/-- Why the evaluation of a list fails. -/
inductive ListFailure (d : Dialect) (depth : Nat) (before : Bindings) (e : EvalError)
    (after : Bindings) : List Form → Prop where
  /-- An element fails, which is an argument or else a head that calls nothing; the elements before it
  have bound some names. -/
  | element {elements : List Form} {form : Form} {names : List String} {b : Bindings} :
    form ∈ elements → d.evalAt depth form b = .error e after → before.Assigned names b →
    (form ∈ elements.tail ∨ d.callee? before form = none) →
    ListFailure d depth before e after elements
  /-- An assignment has not one argument. -/
  | miscount (name : String) {args : List Form} : args.length ≠ 1 →
    e = .arityMismatch (some "def") (.exactly 2) (args.length + 1) →
    ListFailure d depth before e after (.assign name :: args)
  /-- An operation of the language fails for the values of the arguments. -/
  | builtin {name : String} {op : Builtin} {args : List Form} {vs : List Value} :
    before[name]? = some (.builtin op) → vs.length = args.length → op.call vs = .error e →
    ListFailure d depth before e after (.symbol name :: args)
  /-- An operation of the host fails for the values of the arguments. -/
  | host {name : String} {operation : Operation} {args : List Form} {vs : List Value} :
    d.resolve? name = some operation → vs.length = args.length → operation vs = .error e →
    ListFailure d depth before e after (.symbol name :: args)

/-- When the evaluation of a list fails, it has a cause. -/
theorem listFailure_of_evalList_eq_error
    (h : d.evalList depth elements before = .error e after) :
    d.ListFailure depth before e after elements := by
  cases elements with
  | nil => cases h
  | cons head args =>
    cases hcallee : d.callee? before head with
    | none =>
      rw [evalList_of_callee?_eq_none hcallee] at h
      rcases bind_eq_error_iff.mp h with hforms | ⟨vs, middle, -, hpure⟩
      · obtain ⟨form, hform, names, b, hb, hfail⟩ := exists_of_evalEach_eq_error hforms
        refine .element hform hfail hb ?_
        rcases List.mem_cons.mp hform with rfl | hargs
        · exact .inr hcallee
        · exact .inl hargs
      · cases hpure
    | some callee =>
      rw [evalList, get_bind_apply, hcallee] at h
      cases callee with
      | assign name =>
        obtain rfl := callee?_eq_assign d hcallee
        dsimp only at h
        split at h
        · rename_i form
          rcases bind_eq_error_iff.mp h with hform | ⟨u, middle, -, hassign⟩
          · exact .element (List.mem_cons_of_mem _ List.mem_cons_self) hform (.refl before)
              (.inl List.mem_cons_self)
          · cases hassign
        · -- the count is checked first, so no argument has been evaluated
          rename_i hne
          cases h
          refine .miscount name (fun hlength => ?_) rfl
          obtain ⟨form, rfl⟩ := List.length_eq_one_iff.mp hlength
          exact hne form rfl
      | builtin op =>
        obtain ⟨name, rfl, hname⟩ := exists_of_callee?_eq_builtin hcallee
        rcases of_call_eq_error h with ⟨form, hform, names, b, hb, hfail⟩ | ⟨vs, hlength, hfail⟩
        · exact .element (List.mem_cons_of_mem _ hform) hfail hb (.inl hform)
        · exact .builtin hname hlength hfail
      | host operation =>
        obtain ⟨name, rfl, hname⟩ := exists_of_callee?_eq_host hcallee
        rcases of_call_eq_error h with ⟨form, hform, names, b, hb, hfail⟩ | ⟨vs, hlength, hfail⟩
        · exact .element (List.mem_cons_of_mem _ hform) hfail hb (.inl hform)
        · exact .host hname hlength hfail

end Dialect

end ListLanguage
