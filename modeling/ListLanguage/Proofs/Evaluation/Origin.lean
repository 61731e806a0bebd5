import ListLanguage.Proofs.Evaluation.Outcome

/-!
# Where an error comes from

An error of evaluation is raised at one place in a form and travels up unchanged: nothing on its way
catches it, or says more about it. The place is an **operand**, which is the form itself or lies in it
at a place that is evaluated (`Form.HasOperand`), and what raises the error there is one of six causes
(`Dialect.Raises`), found with the bindings that the places before it have left
(`Dialect.exists_raises_of_evalAt_eq_error`).

The count of the lists that an operand lies inside of is kept, so that an error at the limit tells how
deep the form is; and an assignment at the head of a list is no operand, so that one that raises an
error stands elsewhere.
-/

namespace ListLanguage

/-! ### Operands -/

namespace Form

/-- An **operand** of a form, inside a number of lists: the form itself, or an operand of an element,
unless the element is an assignment at the head. -/
inductive HasOperand : Form → Nat → Form → Prop where
  | self (form : Form) : HasOperand form 0 form
  | element {elements : List Form} {form operand : Form} {inner : Nat} : form ∈ elements →
    (form ∈ elements.tail ∨ ∀ name, form ≠ .assign name) → HasOperand form inner operand →
    HasOperand (.list elements) (inner + 1) operand

/-- An assignment in a form that is at the head of no list. -/
def HasLoose (form : Form) (name : String) : Prop :=
  form = .assign name ∨
    ∃ head args, list (head :: args) ∈ form.subforms ∧ .assign name ∈ args

variable {form operand : Form} {inner : Nat}

/-- An operand lies in the form. -/
theorem HasOperand.mem_subforms (h : form.HasOperand inner operand) : operand ∈ form.subforms := by
  induction h with
  | self form => exact form.mem_subforms_self
  | element hform _ _ ih => exact mem_subforms_list hform ih

/-- An operand reaches no deeper than the form. -/
theorem HasOperand.add_depth_le (h : form.HasOperand inner operand) :
    inner + operand.depth ≤ form.depth := by
  induction h with
  | self form => omega
  | element hform _ _ ih =>
    have := depth_lt_of_mem hform
    omega

/-- An assignment that is an operand is at the head of no list. -/
theorem HasOperand.hasLoose {name : String} (h : form.HasOperand inner (.assign name)) :
    form.HasLoose name := by
  generalize hoperand : Form.assign name = operand at h
  induction h with
  | self form => exact .inl hoperand.symm
  | @element elements form operand inner hform hplace _ ih =>
    rcases ih hoperand with rfl | ⟨head, args, hlist, hname⟩
    · -- the operand is an element, and not the head
      have hargs : .assign name ∈ elements.tail := hplace.resolve_right fun hne => hne name rfl
      cases elements with
      | nil => exact absurd hform List.not_mem_nil
      | cons head args => exact .inr ⟨head, args, mem_subforms_self _, hargs⟩
    · exact .inr ⟨head, args, mem_subforms_list hform hlist, hname⟩

end Form

/-! ### Names that were bound before -/

namespace Bindings

variable {before after : Bindings} {names : List String} {name : String}

/-- What stands for no value after some assignments is as it was before. -/
theorem Assigned.getElem?_eq (h : before.Assigned names after)
    (hname : ∀ v, after[name]? ≠ some (.value v)) : before[name]? = after[name]? := by
  obtain ⟨entries, -, rfl⟩ := h
  rcases before.getElem?_overwrite entries name with ⟨⟨v, hv⟩, -⟩ | heq
  · exact absurd hv (hname v)
  · exact heq.symm

end Bindings

/-! ### The evaluator -/

namespace Dialect

open Evaluation Form

variable {d : Dialect} {depth : Nat} {form : Form} {before after : Bindings} {e : EvalError}

/-- What **raises** an error inside `depth` lists, apart from what lies in it: a symbol that is not
bound, an assignment that is at the head of no list, a list that is too deep, an assignment whose
arguments are miscounted, or an operation that fails for as many values as the list has arguments. -/
inductive Raises (d : Dialect) (depth : Nat) (before after : Bindings) :
    Form → EvalError → Prop where
  | unbound {name : String} : before[name]? = none → after[name]? = none →
    Raises d depth before after (.symbol name) (.unboundSymbol name)
  | loose (name : String) :
    Raises d depth before after (.assign name) (.uncallableHead (Form.assign name).print)
  | deep (elements : List Form) : d.limit ≤ depth →
    Raises d depth before after (.list elements) (.depthExceeded d.limit)
  | miscount (name : String) {args : List Form} : args.length ≠ 1 →
    Raises d depth before after (.list (.assign name :: args))
      (.arityMismatch (some "def") (.exactly 2) (args.length + 1))
  | builtin {name : String} {op : Builtin} {args : List Form} {vs : List Value} {e : EvalError} :
    before[name]? = some (.builtin op) → vs.length = args.length → op.call vs = .error e →
    Raises d depth before after (.list (.symbol name :: args)) e
  | host {name : String} {operation : Operation} {args : List Form} {vs : List Value}
    {e : EvalError} :
    d.resolve? name = some operation → vs.length = args.length → operation vs = .error e →
    Raises d depth before after (.list (.symbol name :: args)) e

/-- **Origin law**: when a form fails, one of its operands raises the error, after some assignments. -/
theorem exists_raises_of_evalAt_eq_error (h : d.evalAt depth form before = .error e after) :
    ∃ inner operand names b, form.HasOperand inner operand ∧ before.Assigned names b ∧
      d.Raises (depth + inner) b after operand e := by
  induction form using nestingInduction generalizing depth before with
  | number x => cases h
  | string stored => cases h
  | symbol name =>
    obtain ⟨hname, rfl, rfl⟩ := lookup_eq_error h
    exact ⟨0, _, [], _, .self _, .refl _, .unbound hname hname⟩
  | assign name =>
    cases h
    exact ⟨0, _, [], _, .self _, .refl _, .loose name⟩
  | list elements ih =>
    rw [evalAt] at h
    split at h
    · rename_i hfull
      cases h
      exact ⟨0, _, [], _, .self _, .refl _, .deep elements hfull⟩
    · -- the list raises the error itself, or passes on the one of an element
      cases listFailure_of_evalList_eq_error h with
      | @element _ form names middle hform hfail hmiddle hplace =>
        obtain ⟨inner, operand, others, b, hoperand, hb, hraises⟩ := ih form hform hfail
        have hevaluated : form ∈ elements.tail ∨ ∀ name, form ≠ .assign name := by
          refine hplace.imp_right fun hcallee name hname => ?_
          rw [hname] at hcallee
          cases hcallee
        refine ⟨inner + 1, operand, names ++ others, b, .element hform hevaluated hoperand,
          hmiddle.trans hb, ?_⟩
        rwa [show depth + (inner + 1) = depth + 1 + inner by omega]
      | miscount name hargs hcount =>
        subst hcount
        exact ⟨0, _, [], _, .self _, .refl _, .miscount name hargs⟩
      | builtin hname hlength hfail =>
        exact ⟨0, _, [], _, .self _, .refl _, .builtin hname hlength hfail⟩
      | host hname hlength hfail =>
        exact ⟨0, _, [], _, .self _, .refl _, .host hname hlength hfail⟩

end Dialect

end ListLanguage
