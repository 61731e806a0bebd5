import ListLanguage.Proofs.Builtin.Outcome
import ListLanguage.Proofs.Evaluation.Assignments
import ListLanguage.Proofs.Expansion.Definition
import ListLanguage.Proofs.Form.Leaves

/-!
# What an evaluation keeps

A computation **keeps** an invariant of the bindings if it leaves bindings with the invariant,
whether it fails or not, and its result or its error is of a given kind (`Evaluation.Keeps`). The
evaluator is taken clause by clause: what a form keeps follows from what its parts keep.

Some properties of values cannot be lost by evaluation. If every operation of a dialect takes values
with the property to values with it, and lists of such values have it, too, then the property is
**closed** in the dialect (`Dialect.IsClosed`). Evaluating a written form whose strings have the
property then yields values that have it, from bindings that hold such values to bindings that hold
such values (`Dialect.keeps_evalAt_assigned`).

The same law says which errors can occur. An operation may fail with errors of its own, and a symbol
may be unbound. The errors at an assignment or at a list that is too deep are not among them: once a
written form that keeps the limit is expanded, its assignments are at the heads of lists of two
elements, and nowhere else.
-/

namespace ListLanguage

/-- The values that bindings hold have a property. -/
def Bindings.Hold (P : Value → Prop) (bindings : Bindings) : Prop :=
  ∀ (name : String) (v : Value), bindings[name]? = some (.value v) → P v

theorem Bindings.Hold.insert {P : Value → Prop} {bindings : Bindings} (h : bindings.Hold P)
    (name : String) {v : Value} (hv : P v) : Bindings.Hold P (bindings.insert name (.value v)) := by
  intro other u hu
  rw [Std.ExtTreeMap.getElem?_insert] at hu
  split at hu
  · cases hu
    exact hv
  · exact h other u hu

/-- Values of one kind are taken to a value of another, or to an error of a kind. -/
def Operation.Takes (P Q : Value → Prop) (E : EvalError → Prop) (operation : Operation) : Prop :=
  ∀ args, (∀ v ∈ args, P v) → match operation args with
    | .ok v => Q v
    | .error e => E e

/-! ### Computations that keep an invariant -/

namespace Evaluation

variable {α β : Type} {I : Bindings → Prop} {P : α → Prop} {Q : β → Prop} {E : EvalError → Prop}

/-- A computation that **keeps** an invariant of the bindings, with results and errors of some
kinds. -/
def Keeps (I : Bindings → Prop) (P : α → Prop) (E : EvalError → Prop) (m : Evaluation α) : Prop :=
  ∀ before, I before → match m before with
    | .ok a after => P a ∧ I after
    | .error e after => E e ∧ I after

theorem keeps_pure {a : α} (ha : P a) : Keeps I P E (pure a) :=
  fun _ hI => ⟨ha, hI⟩

theorem keeps_throw {e : EvalError} (he : E e) : Keeps I P E (throw e : Evaluation α) :=
  fun _ hI => ⟨he, hI⟩

/-- Computations in sequence keep what both of them keep. -/
theorem Keeps.bind {m : Evaluation α} {f : α → Evaluation β} (hm : Keeps I P E m)
    (hf : ∀ a, P a → Keeps I Q E (f a)) : Keeps I Q E (m >>= f) := by
  intro before hbefore
  have h := hm before hbefore
  simp only [Bind.bind, EStateM.bind]
  cases hmid : m before with
  | error e middle =>
    rw [hmid] at h
    exact h
  | ok a middle =>
    rw [hmid] at h
    exact hf a h.1 middle h.2

/-- Results of one kind may be seen as results of another. -/
theorem Keeps.mono {Q : α → Prop} {m : Evaluation α} (hm : Keeps I P E m) (h : ∀ a, P a → Q a) :
    Keeps I Q E m := by
  intro before hbefore
  have hresult := hm before hbefore
  cases hmid : m before with
  | error e middle => rwa [hmid] at hresult
  | ok a middle =>
    rw [hmid] at hresult
    exact ⟨h a hresult.1, hresult.2⟩

theorem Keeps.map {m : Evaluation α} {f : α → β} (hm : Keeps I P E m) (hf : ∀ a, P a → Q (f a)) :
    Keeps I Q E (f <$> m) :=
  hm.bind (f := fun a => pure (f a)) fun a ha => keeps_pure (hf a ha)

/-- Reading the bindings changes nothing. -/
theorem get_bind_apply (f : Bindings → Evaluation α) (bindings : Bindings) :
    (get >>= f) bindings = f bindings bindings := rfl

/-- A computation that reads the bindings first goes on with bindings that have the invariant. -/
theorem keeps_get_bind {f : Bindings → Evaluation α} (hf : ∀ b, I b → Keeps I P E (f b)) :
    Keeps I P E (get >>= f) :=
  fun before hbefore => hf before hbefore before hbefore

/-- A row of computations that pass a result on keeps what each of them keeps. -/
theorem keeps_foldlM {f : α → β → Evaluation α} {items : List β} {a : α}
    (h : ∀ a, P a → ∀ item ∈ items, Keeps I P E (f a item)) (ha : P a) :
    Keeps I P E (items.foldlM f a) := by
  induction items generalizing a with
  | nil => exact keeps_pure ha
  | cons item items ih =>
    rw [List.foldlM_cons]
    refine (h a ha item List.mem_cons_self).bind fun next hnext => ?_
    exact ih (fun a ha other hother => h a ha other (List.mem_cons_of_mem item hother)) hnext

variable {P Q : Value → Prop}

theorem keeps_lookup {name : String} (hcallable : P .callable) (hunbound : E (.unboundSymbol name)) :
    Keeps (Bindings.Hold P) P E (lookup name) := by
  refine keeps_get_bind fun bindings hbindings => ?_
  split
  · exact keeps_pure hcallable
  · rename_i v hv
    exact keeps_pure (hbindings name v hv)
  · exact keeps_throw hunbound

theorem keeps_assign (name : String) {v : Value} (hv : P v) :
    Keeps (Bindings.Hold P) P E (assign name v) :=
  fun _ hbefore => ⟨hv, hbefore.insert name hv⟩

theorem keeps_apply {operation : Operation} {args : List Value} (h : operation.Takes P Q E)
    (hargs : ∀ v ∈ args, P v) : Keeps I Q E (apply operation args) := by
  have hvalue := h args hargs
  rw [apply]
  cases hresult : operation args with
  | ok v =>
    rw [hresult] at hvalue
    exact keeps_pure hvalue
  | error e =>
    rw [hresult] at hvalue
    exact keeps_throw hvalue

end Evaluation

/-! ### The evaluator -/

namespace Dialect

open Evaluation Form

/-- A dialect **leads** from values of one kind to values of another, if lists of the former and
operations on them yield the latter, or an error that may occur. -/
structure Leads (d : Dialect) (P Q : Value → Prop) (E : EvalError → Prop) : Prop where
  list : ∀ vs, (∀ v ∈ vs, P v) → Q (.list vs)
  builtin : ∀ op : Builtin, Operation.Takes P Q E op.call
  host : ∀ name operation, d.resolve? name = some operation → operation.Takes P Q E

/-- A property of values that evaluation in a dialect cannot lose, with the errors that may occur. -/
structure IsClosed (d : Dialect) (P : Value → Prop) (E : EvalError → Prop) : Prop extends
    d.Leads P P E where
  number : ∀ x, P (.number x)
  callable : P .callable
  unbound : ∀ name, E (.unboundSymbol name)

variable {d : Dialect} {P Q : Value → Prop} {E : EvalError → Prop} {depth : Nat}

/-- A head that calls an operation of the host is the name of that operation. -/
theorem exists_of_callee?_eq_host {bindings : Bindings} {head : Form} {operation : Operation}
    (h : d.callee? bindings head = some (.host operation)) :
    ∃ name, head = .symbol name ∧ d.resolve? name = some operation := by
  unfold callee? at h
  split at h
  · cases h
  · rename_i name
    split at h
    · cases h
    · obtain ⟨operation, hname, heq⟩ := Option.map_eq_some_iff.mp h
      cases heq
      exact ⟨name, rfl, hname⟩
  · cases h

theorem keeps_evalEach {forms : List Form}
    (h : ∀ form ∈ forms, Keeps (Bindings.Hold P) P E (d.evalAt depth form)) :
    Keeps (Bindings.Hold P) (fun vs => ∀ v ∈ vs, P v) E (d.evalEach depth forms) := by
  induction forms with
  | nil => exact keeps_pure fun v hv => absurd hv List.not_mem_nil
  | cons form forms ih =>
    rw [evalEach]
    refine (h form List.mem_cons_self).bind fun v hv => ?_
    exact (ih fun f hf => h f (List.mem_cons_of_mem form hf)).map fun vs hvs =>
      List.forall_mem_cons.mpr ⟨hv, hvs⟩

/-- An assignment with one argument keeps what its argument keeps. -/
theorem keeps_evalList_assign (name : String) {form : Form}
    (h : Keeps (Bindings.Hold P) P E (d.evalAt depth form)) :
    Keeps (Bindings.Hold P) P E (d.evalList depth [.assign name, form]) := by
  rw [evalList]
  exact keeps_get_bind fun bindings _ => h.bind fun v hv => keeps_assign name hv

/-- A list whose head is no assignment keeps what its elements keep. -/
theorem keeps_evalList (hleads : d.Leads P Q E) {elements : List Form}
    (hhead : ∀ name args, elements ≠ .assign name :: args)
    (h : ∀ form ∈ elements, Keeps (Bindings.Hold P) P E (d.evalAt depth form)) :
    Keeps (Bindings.Hold P) Q E (d.evalList depth elements) := by
  cases elements with
  | nil => exact keeps_pure (hleads.list [] fun v hv => absurd hv List.not_mem_nil)
  | cons head args =>
    have hargs := keeps_evalEach fun form hform => h form (List.mem_cons_of_mem head hform)
    rw [evalList]
    refine keeps_get_bind fun bindings _ => ?_
    split
    · rename_i name hcallee
      exact absurd (congrArg (· :: args) (callee?_eq_assign d hcallee)) (hhead name args)
    · rename_i op hcallee
      exact hargs.bind fun vs hvs => keeps_apply (hleads.builtin op) hvs
    · rename_i operation hcallee
      obtain ⟨name, -, hname⟩ := exists_of_callee?_eq_host hcallee
      exact hargs.bind fun vs hvs => keeps_apply (hleads.host name operation hname) hvs
    · refine (h head List.mem_cons_self).bind fun v hv => ?_
      exact hargs.map fun vs hvs => hleads.list (v :: vs) (List.forall_mem_cons.mpr ⟨hv, hvs⟩)

/-- Expansion makes an assignment only at the head of a list. -/
theorem assigned_ne_assign {form : Form} (h : form.IsWritten) (name : String) :
    form.assigned ≠ .assign name := by
  cases form with
  | list elements => simp [assigned_list]
  | assign other => exact absurd (by simp [leaves_of_depth_eq_zero]) (h other)
  | _ => simp [assigned_of_depth_eq_zero]

/-- **Step law**: evaluating a written form, once it is expanded, keeps a closed property. -/
theorem keeps_evalAt_assigned (hclosed : d.IsClosed P E) {form : Form} (hwritten : form.IsWritten)
    (hstring : ∀ stored, string stored ∈ form.leaves → P (.string stored))
    (hdepth : depth + form.depth ≤ d.limit) :
    Keeps (Bindings.Hold P) P E (d.evalAt depth form.assigned) := by
  induction form using nestingInduction generalizing depth with
  | number x => exact keeps_pure (hclosed.number x)
  | string stored =>
    exact keeps_pure (hstring stored (by simp [leaves_of_depth_eq_zero]))
  | symbol name => exact keeps_lookup hclosed.callable (hclosed.unbound name)
  | assign name => exact absurd (by simp [leaves_of_depth_eq_zero]) (hwritten name)
  | list elements ih =>
    have hroom : ∀ form ∈ elements, depth + 1 + form.depth ≤ d.limit := by
      intro form hform
      have hlt := depth_lt_of_mem hform
      omega
    have helements : ∀ form ∈ elements,
        Keeps (Bindings.Hold P) P E (d.evalAt (depth + 1) form.assigned) := fun form hform =>
      ih form hform (hwritten.of_mem hform)
        (fun stored hstored => hstring stored (mem_leaves_list hform hstored)) (hroom form hform)
    rw [depth_list] at hdepth
    rw [assigned_list, evalAt, if_neg (by omega)]
    rcases rewriteDefinition_map_assigned elements with ⟨name, form, rfl, heq⟩ | heq
    · rw [heq]
      exact keeps_evalList_assign name (helements form (by simp))
    · rw [heq]
      refine keeps_evalList hclosed.toLeads (fun name args hhead => ?_) fun form hform => ?_
      · obtain ⟨head, rest, rfl, hassign, -⟩ := List.map_eq_cons_iff.mp hhead
        exact assigned_ne_assign (hwritten.of_mem List.mem_cons_self) name hassign
      · obtain ⟨element, helement, rfl⟩ := List.mem_map.mp hform
        exact helements element helement

/-! ### Programs -/

variable {I : Bindings → Prop} {forms : List Form}

/-- **Run law**: evaluating some forms in order keeps what each of them keeps. -/
theorem keeps_evalLast (h : ∀ form ∈ forms, Keeps I P E (d.eval form)) :
    Keeps I (fun last => ∀ v, last = some v → P v) E (d.evalLast forms) := by
  refine keeps_foldlM (fun last _ form hform => ?_) fun v hv => (nomatch hv)
  refine (h form hform).map fun v hv u hu => ?_
  cases hu
  exact hv

/-- A program keeps what each of its forms keeps. -/
theorem keeps_evalProgram (h : ∀ form ∈ forms, Keeps I P E (d.eval form)) {bindings : Bindings}
    (hbindings : I bindings) :
    (∀ v, (d.evalProgram forms bindings).1 = .ok v → P v) ∧
      (∀ e, (d.evalProgram forms bindings).1 = .error (.evaluation e) → E e) ∧
      I (d.evalProgram forms bindings).2 := by
  have hkeeps := keeps_evalLast h bindings hbindings
  rw [evalProgram]
  cases hlast : d.evalLast forms bindings with
  | ok last after =>
    rw [hlast] at hkeeps
    obtain ⟨hvalue, hafter⟩ := hkeeps
    cases last with
    | none => exact ⟨by simp, by simp [Error.noExpressions], hafter⟩
    | some u =>
      refine ⟨fun v hv => ?_, by simp, hafter⟩
      exact hvalue v (congrArg some (Except.ok.inj hv))
  | error e after =>
    rw [hlast] at hkeeps
    obtain ⟨herror, hafter⟩ := hkeeps
    refine ⟨by simp, fun e' he' => ?_, hafter⟩
    cases he'
    exact herror

end Dialect

end ListLanguage
