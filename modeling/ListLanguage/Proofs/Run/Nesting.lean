import ListLanguage.Host
import ListLanguage.Proofs.Evaluation.Outcome
import ListLanguage.Proofs.Run.Guards
import ListLanguage.Proofs.Run.Limit

/-!
# The limit is on the depth of forms

Expansion and evaluation both count the lists that they are inside of, and refuse a list where the
limit is reached. This counts the depth of the form exactly, for any form, whether it was read or made
by hand (`Environment.depth_exact`). A success shows that every list in the form was visited and none
was refused, so the form keeps the limit. And a failure at the limit shows a list that lies too deep,
so the form does not keep it; unless an expander or an operation of the host raises such an error of
its own accord.

A form that is too deep may fail in another way before the list is reached that is to blame.
-/

namespace ListLanguage

/-- A list keeps the limit if there is room for it, and for each of its elements inside it. -/
theorem Form.add_depth_list_le_iff {elements : List Form} {depth limit : Nat} :
    depth + (list elements).depth ≤ limit ↔
      depth < limit ∧ ∀ form ∈ elements, depth + 1 + form.depth ≤ limit := by
  rw [depth_list]
  constructor
  · intro h
    refine ⟨by omega, fun form hform => ?_⟩
    have := depthAll_le_iff.mp (Nat.le_refl (depthAll elements)) form hform
    omega
  · rintro ⟨hroom, hforms⟩
    have : depthAll elements ≤ limit - (depth + 1) :=
      depthAll_le_iff.mpr fun form hform => Nat.le_sub_of_add_le' (hforms form hform)
    omega

/-! ### Raising no error of the limit -/

/-- An expander that never fails with the error of the limit. -/
def Expander.RaisesNoLimit (expander : Expander) : Prop :=
  ∀ tail e, expander tail = .error e → ¬e.IsOfLimit

theorem raisesNoLimit_defExpander : Expander.RaisesNoLimit defExpander :=
  fun _ _ h => (isOfDefinition_of_defExpander_eq_error h).kind_ne

/-- An operation that never fails with the error of the limit. -/
def Operation.RaisesNoLimit (operation : Operation) : Prop :=
  ∀ args e, operation args = .error e → ¬e.IsOfLimit

theorem Builtin.raisesNoLimit (op : Builtin) : Operation.RaisesNoLimit op.call := by
  rintro args e h ⟨limit, rfl⟩
  rcases op.call_eq_error h with ⟨-, he⟩ | ⟨text, he⟩ | ⟨-, -, he⟩ <;> cases he

namespace Dialect

open Form

variable {d : Dialect} {depth : Nat} {form : Form}

/-! ### Expansion -/

section Expansion

variable {forms elements out : List Form} {e : ExpansionError}

/-- When some forms are expanded, each of them is. -/
theorem exists_of_expandEach_eq_ok (h : d.expandEach depth forms = .ok out) :
    ∀ form ∈ forms, ∃ expanded, d.expandAt depth form = .ok expanded := by
  induction forms generalizing out with
  | nil => simp
  | cons form forms ih =>
    rw [expandEach] at h
    obtain ⟨first, hform, h⟩ := Except.bind_eq_ok_iff.mp h
    obtain ⟨rest, hforms, -⟩ := Except.bind_eq_ok_iff.mp h
    exact List.forall_mem_cons.mpr ⟨⟨first, hform⟩, ih hforms⟩

/-- When a list with expanded elements fails to be expanded, its expander fails. -/
theorem exists_of_expandHead_eq_error (h : d.expandHead elements = .error e) :
    ∃ (name : String) (tail : List Form) (expander : Expander),
      d.expanders[name]? = some expander ∧ expander tail = .error e := by
  unfold expandHead at h
  split at h
  · rename_i name tail
    split at h
    · exact ⟨name, tail, _, ‹_›, h⟩
    · cases h
  · cases h

/-- A form that is expanded keeps the limit. -/
theorem add_depth_le_of_expandAt_eq_ok {expanded : Form} (hdepth : depth ≤ d.limit)
    (h : d.expandAt depth form = .ok expanded) : depth + form.depth ≤ d.limit := by
  induction form using nestingInduction generalizing depth expanded with
  | list elements ih =>
    rw [expandAt] at h
    split at h
    · cases h
    · rename_i hroom
      -- the expander at the head is asked last, so no element is left out for it
      obtain ⟨out, hout, -⟩ := Except.bind_eq_ok_iff.mp h
      refine add_depth_list_le_iff.mpr ⟨by omega, fun form hform => ?_⟩
      obtain ⟨expanded, hexpanded⟩ := exists_of_expandEach_eq_ok hout form hform
      exact ih form hform (by omega) hexpanded
  | _ => simpa using hdepth

/-- A form that expansion refuses at the limit does not keep it. -/
theorem limit_lt_of_expandAt_eq_error
    (hexpanders : ∀ (name : String) (expander : Expander),
      d.expanders[name]? = some expander → expander.RaisesNoLimit)
    (h : d.expandAt depth form = .error e) (he : e.IsOfLimit) :
    e = .depthExceeded d.limit ∧ d.limit < depth + form.depth := by
  induction form using nestingInduction generalizing depth with
  | list elements ih =>
    rw [expandAt] at h
    split at h
    · cases h
      rw [depth_list]
      exact ⟨rfl, by omega⟩
    · rcases Except.bind_eq_error_iff.mp h with helements | ⟨out, -, hhead⟩
      · obtain ⟨form, hform, hfail⟩ := exists_of_expandEach_eq_error helements
        obtain ⟨rfl, hlt⟩ := ih form hform hfail
        have := depth_lt_of_mem hform
        exact ⟨rfl, by omega⟩
      · -- every element keeps the limit, and the expander raises no error of it
        obtain ⟨name, tail, expander, hname, hfail⟩ :=
          exists_of_expandHead_eq_error (Except.map_eq_error_iff.mp hhead)
        exact absurd he (hexpanders name expander hname tail e hfail)
  | _ =>
    rw [expandAt] at h
    · cases h
    · simp

end Expansion

/-! ### Evaluation -/

section Evaluation

variable {before after : Bindings} {v : Value} {e : EvalError}

/-- A form that is evaluated to a value keeps the limit. -/
theorem add_depth_le_of_evalAt_eq_ok (hdepth : depth ≤ d.limit)
    (h : d.evalAt depth form before = .ok v after) : depth + form.depth ≤ d.limit := by
  induction form using nestingInduction generalizing depth before v after with
  | list elements ih =>
    rw [evalAt] at h
    split at h
    · cases h
    · rename_i hroom
      refine add_depth_list_le_iff.mpr ⟨by omega, fun form hform => ?_⟩
      -- a head that is called is not evaluated, but it is no list
      rcases depth_eq_zero_or_of_evalList_eq_ok h form hform with hzero | ⟨b, u, b', hform'⟩
      · omega
      · exact ih form hform (by omega) hform'
  | _ => simpa using hdepth

/-- A form that evaluation refuses at the limit does not keep it. -/
theorem limit_lt_of_evalAt_eq_error
    (hhost : ∀ name operation, d.resolve? name = some operation → operation.RaisesNoLimit)
    (h : d.evalAt depth form before = .error e after) (he : e.IsOfLimit) :
    e = .depthExceeded d.limit ∧ d.limit < depth + form.depth := by
  induction form using nestingInduction generalizing depth before with
  | number x => cases h
  | string stored => cases h
  | symbol name =>
    obtain ⟨-, rfl, -⟩ := Evaluation.lookup_eq_error h
    obtain ⟨limit, hlimit⟩ := he
    cases hlimit
  | assign name =>
    cases h
    obtain ⟨limit, hlimit⟩ := he
    cases hlimit
  | list elements ih =>
    rw [evalAt] at h
    split at h
    · cases h
      rw [depth_list]
      exact ⟨rfl, by omega⟩
    · -- only an element can be too deep; the other causes of a failure raise other errors
      cases listFailure_of_evalList_eq_error h with
      | element hform hfail =>
        obtain ⟨rfl, hlt⟩ := ih _ hform hfail
        have := depth_lt_of_mem hform
        exact ⟨rfl, by omega⟩
      | miscount name _ hcount =>
        subst hcount
        obtain ⟨limit, hlimit⟩ := he
        cases hlimit
      | builtin _ _ hfail => exact absurd he (Builtin.raisesNoLimit _ _ _ hfail)
      | host hname _ hfail => exact absurd he (hhost _ _ hname _ _ hfail)

end Evaluation

end Dialect

/-! ### Environments -/

namespace Environment

/-- **The limit is on the depth of forms.** Let no expander and no operation of the host raise the
error of the limit. Whatever a form is made of, it keeps the limit if it is expanded or evaluated with
success; and if expansion or evaluation refuses it at the limit, the error tells the limit of the
environment, and the form is deeper than that. -/
theorem depth_exact (env : Environment)
    (hexpanders : ∀ name expander, env.expander? name = some expander → expander.RaisesNoLimit)
    (hhost : ∀ name operation, env.resolve? name = some operation → operation.RaisesNoLimit)
    (form : Form) :
    (∀ out, env.expand form = .ok out → form.depth ≤ env.limit) ∧
      (∀ e, env.expand form = .error e → e.kind = .depthExceeded →
        e = .depthExceeded env.limit ∧ env.limit < form.depth) ∧
      (∀ v, (env.eval form).1 = .ok v → form.depth ≤ env.limit) ∧
      ∀ k, (env.eval form).1 = .error (.depthExceeded k) →
        k = env.limit ∧ env.limit < form.depth := by
  refine ⟨fun out hout => ?_, fun e he hkind => ?_, fun v hv => ?_, fun k hk => ?_⟩
  · simpa using Dialect.add_depth_le_of_expandAt_eq_ok (Nat.zero_le _) hout
  · simpa using Dialect.limit_lt_of_expandAt_eq_error hexpanders he hkind
  · rw [eval, Dialect.eval] at hv
    split at hv
    · simpa using Dialect.add_depth_le_of_evalAt_eq_ok (Nat.zero_le _) ‹_›
    · cases hv
  · rw [eval, Dialect.eval] at hk
    split at hk
    · cases hk
    · cases hk
      obtain ⟨heq, hlt⟩ := Dialect.limit_lt_of_evalAt_eq_error hhost ‹_› ⟨k, rfl⟩
      exact ⟨EvalError.depthExceeded.inj heq, by omega⟩

/-- Two lists are allowed, an expander nests its elements two lists deeper, and the host has a clock.
The form that this makes of two lists was not too deep itself, but is too deep to be expanded again or
evaluated. -/
theorem depth_exact_nest :
    let nest : Expander := fun tail =>
      if tail.isEmpty then .error (.arity "nest" 1 0) else .ok [.list [.list tail]]
    let clock : Operation := .fixed [] fun _ => .ok (.ofInt 12)
    let env := ((standard.setExpander "nest" nest).setResolver
      (({} : HostTable).insert "now" clock).resolve?).setLimit 2
    let time : Form := .list [.assign "time", .list [.symbol "now"]]
    let nested : Form := .list [.symbol "nest", .list [.symbol "now"]]
    let deep : Form := .list [.list [.list [.list [.symbol "now"]]]]
    (env.expand nested = .ok deep ∧ nested.depth ≤ 2) ∧
      (env.expand deep = .error (.depthExceeded 2) ∧ 2 < deep.depth) ∧
      ((env.eval time).1 = .ok (.ofInt 12) ∧ time.depth ≤ 2) ∧
      ((env.eval deep).1 = .error (.depthExceeded 2) ∧ 2 < deep.depth) := by
  intro nest clock env time nested deep
  have hexpanders : ∀ name expander, env.expander? name = some expander →
      expander.RaisesNoLimit := by
    intro name expander hname
    rw [show env.expander? name =
      (((∅ : Std.ExtTreeMap String Expander).insert "def" defExpander).insert "nest" nest)[name]?
        from rfl, Std.ExtTreeMap.getElem?_insert] at hname
    split at hname
    · cases hname
      intro tail e he
      simp only [nest] at he
      split at he
      · cases he
        simp [ExpansionError.IsOfLimit, ExpansionError.arity]
      · cases he
    · rw [Std.ExtTreeMap.getElem?_insert] at hname
      split at hname
      · cases hname
        exact raisesNoLimit_defExpander
      · simp at hname
  have hhost : ∀ name operation, env.resolve? name = some operation →
      operation.RaisesNoLimit := by
    intro name operation hname args e he
    rw [show env.resolve? name = (({} : HostTable).insert "now" clock).resolve? name
      from rfl, HostTable.resolve?_insert] at hname
    split at hname
    · cases hname
      simp only [clock, Operation.fixed] at he
      split at he
      · cases he
      · cases he
        rintro ⟨limit, hlimit⟩
        cases hlimit
    · simp [HostTable.resolve?] at hname
  have hnested : env.expand nested = .ok deep := rfl
  have hdeep : env.expand deep = .error (.depthExceeded 2) := rfl
  have htime : (env.eval time).1 = .ok (.ofInt 12) := rfl
  have heval : (env.eval deep).1 = .error (.depthExceeded 2) := rfl
  have hexact := depth_exact env hexpanders hhost
  exact ⟨⟨hnested, (hexact nested).1 _ hnested⟩, ⟨hdeep, ((hexact deep).2.1 _ hdeep rfl).2⟩,
    ⟨htime, (hexact time).2.2.1 _ htime⟩, ⟨heval, ((hexact deep).2.2.2 _ heval).2⟩⟩

end Environment

end ListLanguage
