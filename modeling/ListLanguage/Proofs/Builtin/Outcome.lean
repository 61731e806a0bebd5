import ListLanguage.Builtin
import ListLanguage.Proofs.Operation.Checks

/-!
# What the operations of the language yield

A call of an operation of the language yields a number, a string joined from strings, or something
taken from the one list it was given (`Builtin.call_eq_ok`). It fails for one of three reasons: the
count of the arguments, which names the operation, the type of an argument, or an empty list
(`Builtin.call_eq_error`).

An operation is given by its parameters and its body, and the parameters are dealt with once for
all operations: a call fails by the count, by the type of an argument, or in the body.
-/

namespace ListLanguage

/-! ### Calling operations -/

namespace Operation

variable {ps : List Parameter} {kind : ElementKind} {vs : List Value} {v : Value} {e : EvalError}

theorem fixed_eq_error {body : Arguments ps → Except EvalError Value}
    (hlength : vs.length = ps.length) (h : fixed ps body vs = .error e) :
    (∃ text, e = .typeMismatch text) ∨ ∃ args, body args = .error e := by
  obtain ⟨checked, hcall, herror, -⟩ := exists_checked_fixed ps vs
  rw [hcall] at h
  rcases Except.bind_eq_error_iff.mp h with hchecked | ⟨args, -, hbody⟩
  · cases (herror e).mp hchecked with
    | count hcount => exact absurd hlength hcount
    | argument => exact .inl ⟨_, rfl⟩
  · exact .inr ⟨args, hbody⟩

theorem fixed_eq_ok {body : Arguments ps → Except EvalError Value}
    (h : fixed ps body vs = .ok v) : ∃ args, Arguments.Takes ps vs args ∧ body args = .ok v := by
  obtain ⟨checked, hcall, -, hok⟩ := exists_checked_fixed ps vs
  rw [hcall] at h
  obtain ⟨args, hargs, hbody⟩ := Except.bind_eq_ok_iff.mp h
  exact ⟨args, (hok args).mp hargs, hbody⟩

theorem variadic_eq_error {body : Arguments ps → Elements kind → Except EvalError Value}
    (hlength : ps.length ≤ vs.length) (h : variadic ps kind body vs = .error e) :
    (∃ text, e = .typeMismatch text) ∨ ∃ first rest, body first rest = .error e := by
  rw [variadic_of_length_le hlength] at h
  rcases Except.bind_eq_error_iff.mp h with hargs | ⟨args, -, hbody⟩
  · rcases (Arguments.withFurther?_eq_error_iff _).mp hargs with
      ⟨text, -, rfl⟩ | ⟨-, text, -, -, rfl⟩
    · exact .inl ⟨text, rfl⟩
    · exact .inl ⟨text, rfl⟩
  · exact .inr ⟨args.1, args.2, hbody⟩

theorem variadic_eq_ok {body : Arguments ps → Elements kind → Except EvalError Value}
    (h : variadic ps kind body vs = .ok v) :
    ∃ first rest, rest.values = vs.drop ps.length ∧ body first rest = .ok v := by
  by_cases hlength : ps.length ≤ vs.length
  · rw [variadic_of_length_le hlength] at h
    obtain ⟨args, hargs, hbody⟩ := Except.bind_eq_ok_iff.mp h
    exact ⟨args.1, args.2, ((Arguments.withFurther?_eq_ok_iff _).mp hargs).2, hbody⟩
  · rw [variadic, dif_neg hlength] at h
    cases h

/-- An operation that takes one list is given one. -/
theorem fixed_list_eq_ok {body : Arguments [.list .any] → Except EvalError Value}
    (h : fixed [.list .any] body vs = .ok v) :
    ∃ es : Elements .any, vs = [.list es.values] ∧ body (es, ()) = .ok v := by
  obtain ⟨args, htakes, hbody⟩ := fixed_eq_ok h
  obtain _ | ⟨hlist, hnil⟩ := htakes
  cases hnil
  cases hlist
  exact ⟨_, rfl, hbody⟩

end Operation

namespace Builtin

variable {op : Builtin} {args vs : List Value} {v : Value} {e : EvalError}

/-! ### Results -/

/-- What an operation of the language can yield for some arguments: a number; the arguments joined,
if all of them are strings; or an element or some elements of the one argument, if that is a
list. -/
inductive Result (args : List Value) : Value → Prop where
  | number (x : Float) : Result args (.number x)
  | joined {stored : List String} : args = stored.map .string →
    Result args (.ofContent (String.join (stored.map Text.unquote)))
  | element {elements : List Value} {v : Value} : args = [.list elements] → v ∈ elements →
    Result args v
  | sublist {elements part : List Value} : args = [.list elements] → part ⊆ elements →
    Result args (.list part)

/-- The contents to be joined are those of strings. -/
theorem exists_of_mapM_contentToJoin {contents : List String}
    (h : vs.mapM contentToJoin = .ok contents) :
    ∃ stored : List String, vs = stored.map .string ∧ contents = stored.map Text.unquote := by
  induction vs generalizing contents with
  | nil =>
    cases h
    exact ⟨[], rfl, rfl⟩
  | cons v vs ih =>
    obtain ⟨content, rest, hv, hvs, rfl⟩ := Except.mapM_cons_eq_ok_iff.mp h
    obtain ⟨stored, rfl, rfl⟩ := ih hvs
    cases v with
    | string s =>
      cases hv
      exact ⟨s :: stored, rfl, rfl⟩
    | _ => cases hv

theorem result_of_joinOrAdd_eq_ok (h : joinOrAdd vs = .ok v) : Result vs v := by
  unfold joinOrAdd at h
  split at h
  · obtain ⟨contents, hcontents, hpure⟩ := Except.bind_eq_ok_iff.mp h
    obtain ⟨stored, hstored, rfl⟩ := exists_of_mapM_contentToJoin hcontents
    cases hpure
    exact .joined hstored
  · obtain ⟨sum, -, hpure⟩ := Except.bind_eq_ok_iff.mp h
    cases hpure
    exact .number sum

theorem result_of_apply_eq_ok (h : op.apply vs = .ok v) : Result vs v := by
  cases op with
  | add =>
    obtain ⟨first, rest, hrest, hbody⟩ := Operation.variadic_eq_ok h
    rw [Elements.toList_any, hrest] at hbody
    exact result_of_joinOrAdd_eq_ok hbody
  | subtract | multiply | divide =>
    obtain ⟨first, rest, -, hbody⟩ := Operation.variadic_eq_ok h
    cases hbody
    exact .number _
  | head =>
    obtain ⟨es, rfl, hbody⟩ := Operation.fixed_list_eq_ok h
    simp only [Elements.toList_any] at hbody
    cases hhead : es.values.head? with
    | none =>
      simp only [hhead] at hbody
      cases hbody
    | some u =>
      simp only [hhead] at hbody
      cases hbody
      exact .element rfl (List.mem_of_head? hhead)
  | tail =>
    obtain ⟨es, rfl, hbody⟩ := Operation.fixed_list_eq_ok h
    simp only [Elements.toList_any] at hbody
    cases hbody
    exact .sublist rfl ((List.tail_sublist es.values).subset)
  | last =>
    obtain ⟨es, rfl, hbody⟩ := Operation.fixed_list_eq_ok h
    simp only [Elements.toList_any] at hbody
    cases hlast : es.values.getLast? with
    | none =>
      simp only [hlast] at hbody
      cases hbody
    | some u =>
      simp only [hlast] at hbody
      cases hbody
      exact .element rfl (List.mem_of_getLast? hlast)
  | front =>
    obtain ⟨es, rfl, hbody⟩ := Operation.fixed_list_eq_ok h
    simp only [Elements.toList_any] at hbody
    cases hbody
    exact .sublist rfl (List.dropLast_subset es.values)

/-- What a call yields. -/
theorem call_eq_ok (h : op.call args = .ok v) : Result args v := by
  obtain ⟨-, -, happly⟩ := Except.bind_eq_ok_iff.mp (Except.mapError_eq_ok_iff.mp h)
  exact result_of_apply_eq_ok happly

/-! ### Errors -/

/-- Arguments are joined or added if they are of the type of the first one. -/
theorem joinOrAdd_eq_error (h : joinOrAdd vs = .error e) : ∃ text, e = .typeMismatch text := by
  unfold joinOrAdd at h
  split at h
  · rcases Except.bind_eq_error_iff.mp h with hjoin | ⟨contents, -, hpure⟩
    · obtain ⟨v, -, hv⟩ := Except.exists_of_mapM_eq_error hjoin
      cases v <;> cases hv
      all_goals exact ⟨_, rfl⟩
    · cases hpure
  · rcases Except.bind_eq_error_iff.mp h with hadd | ⟨sum, -, hpure⟩
    · obtain ⟨sum, v, -, hv⟩ := Except.exists_of_foldlM_eq_error hadd
      cases v <;> cases hv
      all_goals exact ⟨_, rfl⟩
    · cases hpure

/-- An operation whose arity admits the count of its arguments fails by the type of one of them, or
because a list is empty that is to yield an element. -/
theorem apply_eq_error (hadmits : op.arity.admits vs.length) (h : op.apply vs = .error e) :
    (∃ text, e = .typeMismatch text) ∨
      (op = .head ∨ op = .last) ∧ vs.length = 1 ∧ e = .emptyList op.id := by
  cases op with
  | add =>
    rcases Operation.variadic_eq_error (Nat.zero_le _) h with htype | ⟨first, rest, hbody⟩
    · exact .inl htype
    · exact .inl (joinOrAdd_eq_error hbody)
  | multiply =>
    rcases Operation.variadic_eq_error (Nat.zero_le _) h with htype | ⟨first, rest, hbody⟩
    · exact .inl htype
    · cases hbody
  | subtract | divide =>
    have hlength : [Parameter.number, .number].length ≤ vs.length :=
      Arity.admits_atLeast.mp hadmits
    rcases Operation.variadic_eq_error hlength h with htype | ⟨first, rest, hbody⟩
    · exact .inl htype
    · cases hbody
  | tail | front =>
    have hlength : vs.length = 1 := Arity.admits_exactly.mp hadmits
    rcases Operation.fixed_eq_error hlength h with htype | ⟨args, hbody⟩
    · exact .inl htype
    · cases hbody
  | head | last =>
    have hlength : vs.length = 1 := Arity.admits_exactly.mp hadmits
    rcases Operation.fixed_eq_error hlength h with htype | ⟨args, hbody⟩
    · exact .inl htype
    · dsimp only at hbody
      split at hbody
      · cases hbody
      · cases hbody
        exact .inr ⟨by simp, hlength, rfl⟩

/-- Why a call fails: the count of the arguments, the type of one of them, or an empty list that is to
yield an element. -/
theorem call_eq_error (h : op.call args = .error e) :
    (op.arity.admits args.length = false ∧
        e = .arityMismatch (some op.id) op.arity args.length) ∨
      (∃ text, e = .typeMismatch text) ∨
      (op = .head ∨ op = .last) ∧ args.length = 1 ∧ e = .emptyList op.id := by
  obtain ⟨e', he', rfl⟩ := Except.mapError_eq_error_iff.mp h
  by_cases hadmits : op.arity.admits args.length
  · rw [Operation.withArity_of_admits hadmits] at he'
    rcases apply_eq_error hadmits he' with ⟨text, rfl⟩ | ⟨hop, hlength, rfl⟩
    · exact .inr (.inl ⟨text, rfl⟩)
    · exact .inr (.inr ⟨hop, hlength, rfl⟩)
  · have hrefused : op.arity.admits args.length = false := by simpa using hadmits
    rw [Operation.withArity_of_not_admits hrefused] at he'
    cases he'
    exact .inl ⟨hrefused, rfl⟩

end Builtin

end ListLanguage
