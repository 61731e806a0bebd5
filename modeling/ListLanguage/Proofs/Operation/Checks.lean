import ListLanguage.Operation
import ListLanguage.Proofs.Except
import ListLanguage.Proofs.Value.Elements

/-!
# What is checked before an operation runs

An operation that is given by parameters and a body checks its arguments first. A parameter **takes** an
argument as what the body then sees, or **refuses** it with a reason; which of the two it does is told
by the argument alone. Some parameters take their arguments if each of them takes its own, and
otherwise the leftmost argument that is refused gives the reason.

So the checks have an outcome that does not depend on the body: an error, which is what the call comes
to, or the arguments as they are taken, to which the body is applied. The errors come in a fixed order:
first those about the count of the arguments, then those about the arguments from left to right, then
that about the further arguments (`Operation.checks_before_body`).
-/

namespace ListLanguage

/-! ### Parameters -/

namespace Parameter

/-- What a parameter **takes** an argument as. -/
inductive Takes : (p : Parameter) → Value → p.Item → Prop where
  | number (x : Float) : Takes number (.number x) x
  | string {stored content : String} : Text.Holds stored.toList content.toList →
    Takes string (.string stored) content
  | any (v : Value) : Takes any v v
  | list {kind : ElementKind} (es : Elements kind) : Takes (list kind) (.list es.values) es

/-- The reason for which a parameter **refuses** an argument. -/
inductive Refuses : Parameter → Value → String → Prop where
  | number {v : Value} {found : String} : (∀ x, v ≠ .number x) → v.IsCalled found →
    Refuses number v s!"expected number, found {found}"
  | string {v : Value} {found : String} : (∀ stored, v ≠ .string stored) → v.IsCalled found →
    Refuses string v s!"expected string, found {found}"
  | list {kind : ElementKind} {v : Value} {found : String} : (∀ vs, v ≠ .list vs) →
    v.IsCalled found → Refuses (list kind) v s!"expected list, found {found}"
  | elements {kind : ElementKind} {vs : List Value} {text : String} : kind.Refuses vs text →
    Refuses (list kind) (.list vs) text

variable {p : Parameter} {v : Value}

theorem convert_eq_ok_iff {item : p.Item} : p.convert v = .ok item ↔ p.Takes v item := by
  constructor
  · intro h
    cases p with
    | number =>
      cases v <;> cases h
      exact .number _
    | string =>
      cases v <;> cases h
      exact .string (Text.holds_iff.mpr rfl)
    | any =>
      cases h
      exact .any v
    | list kind =>
      cases v with
      | list elements =>
        obtain rfl := Elements.ofValues?_eq_ok_iff.mp h
        exact .list item
      | _ => cases h
  · rintro (x | hholds | v | es)
    · rfl
    · exact congrArg Except.ok (Text.holds_iff.mp hholds)
    · rfl
    · exact Elements.ofValues?_eq_ok_iff.mpr rfl

theorem convert_eq_error_iff {e : EvalError} :
    p.convert v = .error e ↔ ∃ text, p.Refuses v text ∧ e = .typeMismatch text := by
  constructor
  · intro h
    have hcalled : v.IsCalled v.typeName := Value.isCalled_iff.mpr rfl
    cases p with
    | number =>
      cases v <;> cases h
      all_goals exact ⟨_, .number nofun hcalled, rfl⟩
    | string =>
      cases v <;> cases h
      all_goals exact ⟨_, .string nofun hcalled, rfl⟩
    | any => cases h
    | list kind =>
      cases v with
      | list elements =>
        obtain ⟨text, hrefuses, rfl⟩ := Elements.ofValues?_eq_error_iff_refuses.mp h
        exact ⟨text, .elements hrefuses, rfl⟩
      | _ =>
        cases h
        exact ⟨_, .list nofun hcalled, rfl⟩
  · rintro ⟨text, hrefuses, rfl⟩
    cases hrefuses with
    | number h hcalled =>
      obtain rfl := Value.isCalled_iff.mp hcalled
      cases v with
      | number x => exact absurd rfl (h x)
      | _ => rfl
    | string h hcalled =>
      obtain rfl := Value.isCalled_iff.mp hcalled
      cases v with
      | string stored => exact absurd rfl (h stored)
      | _ => rfl
    | list h hcalled =>
      obtain rfl := Value.isCalled_iff.mp hcalled
      cases v with
      | list vs => exact absurd rfl (h vs)
      | _ => rfl
    | elements h => exact Elements.ofValues?_eq_error_iff_refuses.mpr ⟨text, h, rfl⟩

end Parameter

/-! ### Arguments -/

namespace Arguments

/-- What some parameters **take** their arguments as, each its own. -/
inductive Takes : (ps : List Parameter) → List Value → Arguments ps → Prop where
  | nil : Takes [] [] ()
  | cons {p : Parameter} {ps : List Parameter} {v : Value} {vs : List Value} {item : p.Item}
    {items : Arguments ps} : p.Takes v item → Takes ps vs items →
    Takes (p :: ps) (v :: vs) (item, items)

/-- The reason for which some parameters **refuse** the leftmost of their arguments that is not taken. -/
inductive Refuses : List Parameter → List Value → String → Prop where
  | here {p : Parameter} {ps : List Parameter} {v : Value} {vs : List Value} {text : String} :
    p.Refuses v text → Refuses (p :: ps) (v :: vs) text
  | behind {p : Parameter} {ps : List Parameter} {v : Value} {vs : List Value} {item : p.Item}
    {text : String} : p.Takes v item → Refuses ps vs text → Refuses (p :: ps) (v :: vs) text

variable {ps : List Parameter} {vs : List Value}

theorem Takes.length_eq {args : Arguments ps} (h : Takes ps vs args) : vs.length = ps.length := by
  induction h with
  | nil => rfl
  | cons _ _ ih => rw [List.length_cons, List.length_cons, ih]

theorem ofValues?_eq_ok_iff (hlength : vs.length = ps.length) {args : Arguments ps} :
    ofValues? ps vs hlength = .ok args ↔ Takes ps vs args := by
  induction ps generalizing vs with
  | nil =>
    obtain rfl := List.length_eq_zero_iff.mp hlength
    exact ⟨fun _ => .nil, fun _ => rfl⟩
  | cons p ps ih =>
    obtain ⟨v, vs, rfl⟩ := List.exists_cons_of_length_eq_add_one hlength
    have hrest : vs.length = ps.length := Nat.succ.inj hlength
    rw [ofValues?, Except.bind_eq_ok_iff]
    constructor
    · rintro ⟨item, hitem, h⟩
      obtain ⟨items, hitems, hpure⟩ := Except.bind_eq_ok_iff.mp h
      cases hpure
      exact .cons (Parameter.convert_eq_ok_iff.mp hitem) ((ih hrest).mp hitems)
    · rintro (_ | ⟨hitem, hitems⟩)
      refine ⟨_, Parameter.convert_eq_ok_iff.mpr hitem, ?_⟩
      rw [(ih hrest).mpr hitems]
      rfl

theorem ofValues?_eq_error_iff (hlength : vs.length = ps.length) {e : EvalError} :
    ofValues? ps vs hlength = .error e ↔ ∃ text, Refuses ps vs text ∧ e = .typeMismatch text := by
  induction ps generalizing vs with
  | nil =>
    constructor
    · intro h
      cases h
    · rintro ⟨text, hrefuses, -⟩
      cases hrefuses
  | cons p ps ih =>
    obtain ⟨v, vs, rfl⟩ := List.exists_cons_of_length_eq_add_one hlength
    have hrest : vs.length = ps.length := Nat.succ.inj hlength
    rw [ofValues?, Except.bind_eq_error_iff]
    constructor
    · rintro (hv | ⟨item, hitem, h⟩)
      · obtain ⟨text, htext, rfl⟩ := Parameter.convert_eq_error_iff.mp hv
        exact ⟨text, .here htext, rfl⟩
      · rcases Except.bind_eq_error_iff.mp h with hvs | ⟨items, -, hpure⟩
        · obtain ⟨text, htext, rfl⟩ := (ih hrest).mp hvs
          exact ⟨text, .behind (Parameter.convert_eq_ok_iff.mp hitem) htext, rfl⟩
        · cases hpure
    · rintro ⟨text, hrefuses, rfl⟩
      cases hrefuses with
      | here h => exact .inl (Parameter.convert_eq_error_iff.mpr ⟨text, h, rfl⟩)
      | behind hitem h =>
        refine .inr ⟨_, Parameter.convert_eq_ok_iff.mpr hitem, ?_⟩
        rw [(ih hrest).mpr ⟨text, h, rfl⟩]
        rfl

/-! ### Further arguments -/

variable {kind : ElementKind}

theorem Takes.length_le {args : Arguments ps} (h : Takes ps (vs.take ps.length) args) :
    ps.length ≤ vs.length := by
  have hlength := h.length_eq
  rw [List.length_take] at hlength
  omega

/-- Converts one argument for each parameter, and then the further ones. -/
def withFurther? (ps : List Parameter) (kind : ElementKind) (vs : List Value)
    (h : (vs.take ps.length).length = ps.length) :
    Except EvalError (Arguments ps × Elements kind) := do
  let first ← ofValues? ps (vs.take ps.length) h
  let rest ← Elements.ofValues? kind (vs.drop ps.length)
  return (first, rest)

theorem withFurther?_eq_ok_iff (h : (vs.take ps.length).length = ps.length) {first : Arguments ps}
    {rest : Elements kind} : withFurther? ps kind vs h = .ok (first, rest) ↔
      Takes ps (vs.take ps.length) first ∧ rest.values = vs.drop ps.length := by
  rw [withFurther?, Except.bind_eq_ok_iff]
  constructor
  · rintro ⟨first', hfirst, hfurther⟩
    obtain ⟨rest', hrest, hpure⟩ := Except.bind_eq_ok_iff.mp hfurther
    cases hpure
    exact ⟨(ofValues?_eq_ok_iff _).mp hfirst, Elements.ofValues?_eq_ok_iff.mp hrest⟩
  · rintro ⟨hfirst, hrest⟩
    refine ⟨first, (ofValues?_eq_ok_iff _).mpr hfirst, ?_⟩
    rw [Elements.ofValues?_eq_ok_iff.mpr hrest]
    rfl

theorem withFurther?_eq_error_iff (h : (vs.take ps.length).length = ps.length) {e : EvalError} :
    withFurther? ps kind vs h = .error e ↔
      (∃ text, Refuses ps (vs.take ps.length) text ∧ e = .typeMismatch text) ∨
        ∃ first text, Takes ps (vs.take ps.length) first ∧
          kind.Refuses (vs.drop ps.length) text ∧ e = .typeMismatch text := by
  rw [withFurther?, Except.bind_eq_error_iff, ofValues?_eq_error_iff]
  refine or_congr_right ?_
  simp only [ofValues?_eq_ok_iff]
  constructor
  · rintro ⟨first, hfirst, hfurther⟩
    rcases Except.bind_eq_error_iff.mp hfurther with hrest | ⟨rest, -, hpure⟩
    · obtain ⟨text, hrefuses, he⟩ := Elements.ofValues?_eq_error_iff_refuses.mp hrest
      exact ⟨first, text, hfirst, hrefuses, he⟩
    · cases hpure
  · rintro ⟨first, text, hfirst, hrefuses, he⟩
    have hrest : Elements.ofValues? kind (vs.drop ps.length) = .error e :=
      Elements.ofValues?_eq_error_iff_refuses.mpr ⟨text, hrefuses, he⟩
    exact ⟨first, hfirst, Except.bind_eq_error_iff.mpr (.inl hrest)⟩

end Arguments

/-! ### Operations -/

namespace Operation

/-- Why the checks of an operation fail that takes one argument for each parameter: for the count of
the arguments, or for the leftmost one that is refused. -/
inductive FailsFixed (ps : List Parameter) (vs : List Value) : EvalError → Prop where
  | count : vs.length ≠ ps.length →
    FailsFixed ps vs (.arityMismatch none (.exactly ps.length) vs.length)
  | argument {text : String} : vs.length = ps.length → Arguments.Refuses ps vs text →
    FailsFixed ps vs (.typeMismatch text)

/-- Why the checks of an operation fail that takes further arguments of one kind, and that has an arity
of its own: for that arity, for too few arguments for the parameters, for the leftmost of the
parameters' arguments that is refused, or for the first misfit of the further arguments. -/
inductive FailsVariadic (arity : Arity) (ps : List Parameter) (kind : ElementKind)
    (vs : List Value) : EvalError → Prop where
  | count : arity.admits vs.length = false →
    FailsVariadic arity ps kind vs (.arityMismatch none arity vs.length)
  | tooFew : arity.admits vs.length → vs.length < ps.length →
    FailsVariadic arity ps kind vs (.arityMismatch none (.atLeast ps.length) vs.length)
  | argument {text : String} : arity.admits vs.length → ps.length ≤ vs.length →
    Arguments.Refuses ps (vs.take ps.length) text →
    FailsVariadic arity ps kind vs (.typeMismatch text)
  | further {first : Arguments ps} {text : String} : arity.admits vs.length →
    Arguments.Takes ps (vs.take ps.length) first → kind.Refuses (vs.drop ps.length) text →
    FailsVariadic arity ps kind vs (.typeMismatch text)

/-- The checks of an operation that takes one argument for each parameter. -/
theorem exists_checked_fixed (ps : List Parameter) (vs : List Value) :
    ∃ checked : Except EvalError (Arguments ps),
      (∀ body, fixed ps body vs = checked >>= body) ∧
        (∀ e, checked = .error e ↔ FailsFixed ps vs e) ∧
        ∀ args, checked = .ok args ↔ Arguments.Takes ps vs args := by
  by_cases hlength : vs.length = ps.length
  · refine ⟨Arguments.ofValues? ps vs hlength, fun body => dif_pos hlength, fun e => ?_, fun args => ?_⟩
    · rw [Arguments.ofValues?_eq_error_iff]
      constructor
      · rintro ⟨text, hrefuses, rfl⟩
        exact .argument hlength hrefuses
      · rintro (hcount | ⟨-, hrefuses⟩)
        · exact absurd hlength hcount
        · exact ⟨_, hrefuses, rfl⟩
    · exact Arguments.ofValues?_eq_ok_iff hlength
  · refine ⟨.error (.arityMismatch none (.exactly ps.length) vs.length), fun body => dif_neg hlength,
      fun e => ?_, fun args => ?_⟩
    · constructor
      · rintro ⟨⟩
        exact .count hlength
      · rintro (- | ⟨hcount, -⟩)
        · rfl
        · exact absurd hcount hlength
    · exact ⟨nofun, fun htakes => absurd htakes.length_eq hlength⟩

/-- An operation whose arity refuses a count of arguments is not asked further. -/
theorem withArity_of_not_admits {arity : Arity} {vs : List Value}
    (h : arity.admits vs.length = false) (operation : Operation) :
    operation.withArity arity vs = .error (.arityMismatch none arity vs.length) := by
  have hcheck : arity.check vs.length = .error (.arityMismatch none arity vs.length) :=
    if_neg (by simp [h])
  rw [withArity, hcheck]
  rfl

theorem withArity_of_admits {arity : Arity} {vs : List Value} (h : arity.admits vs.length)
    (operation : Operation) : operation.withArity arity vs = operation vs := by
  have hcheck : arity.check vs.length = .ok () := if_pos h
  rw [withArity, hcheck]
  rfl

theorem variadic_of_length_le {ps : List Parameter} {kind : ElementKind} {vs : List Value}
    {body : Arguments ps → Elements kind → Except EvalError Value} (h : ps.length ≤ vs.length) :
    variadic ps kind body vs =
      Arguments.withFurther? ps kind vs (List.length_take_of_le h) >>= fun args =>
        body args.1 args.2 := by
  rw [variadic, dif_pos h]
  simp only [Arguments.withFurther?, bind_assoc, pure_bind]

/-- The checks of an operation that takes further arguments and has an arity of its own. -/
theorem exists_checked_variadic (arity : Arity) (ps : List Parameter) (kind : ElementKind)
    (vs : List Value) :
    ∃ checked : Except EvalError (Arguments ps × Elements kind),
      (∀ body, (variadic ps kind body).withArity arity vs =
          checked >>= fun args => body args.1 args.2) ∧
        (∀ e, checked = .error e ↔ FailsVariadic arity ps kind vs e) ∧
        ∀ first rest, checked = .ok (first, rest) ↔ arity.admits vs.length ∧
          Arguments.Takes ps (vs.take ps.length) first ∧ rest.values = vs.drop ps.length := by
  cases hadmits : arity.admits vs.length with
  | false =>
    refine ⟨.error (.arityMismatch none arity vs.length),
      fun body => withArity_of_not_admits hadmits _, fun e => ?_, fun first rest => ?_⟩
    · constructor
      · rintro ⟨⟩
        exact .count hadmits
      · rintro (- | ⟨h, -⟩ | ⟨h, -, -⟩ | ⟨h, -, -⟩)
        · rfl
        all_goals exact absurd h (by simp [hadmits])
    · exact ⟨nofun, fun h => nomatch h.1⟩
  | true =>
    by_cases hlength : ps.length ≤ vs.length
    · have htake : (vs.take ps.length).length = ps.length := List.length_take_of_le hlength
      refine ⟨Arguments.withFurther? ps kind vs htake, fun body => ?_, fun e => ?_,
        fun first rest => ?_⟩
      · rw [withArity_of_admits hadmits, variadic_of_length_le hlength]
      · rw [Arguments.withFurther?_eq_error_iff]
        constructor
        · rintro (⟨text, hrefuses, rfl⟩ | ⟨first, text, htakes, hrefuses, rfl⟩)
          · exact .argument hadmits hlength hrefuses
          · exact .further hadmits htakes hrefuses
        · rintro (h | ⟨-, h⟩ | ⟨-, -, hrefuses⟩ | ⟨-, htakes, hrefuses⟩)
          · exact absurd hadmits (by simp [h])
          · exact absurd hlength (Nat.not_le_of_lt h)
          · exact .inl ⟨_, hrefuses, rfl⟩
          · exact .inr ⟨_, _, htakes, hrefuses, rfl⟩
      · rw [Arguments.withFurther?_eq_ok_iff]
        simp
    · refine ⟨.error (.arityMismatch none (.atLeast ps.length) vs.length), fun body => ?_, fun e => ?_,
        fun first rest => ⟨nofun, fun h => absurd h.2.1.length_le hlength⟩⟩
      · rw [withArity_of_admits hadmits, variadic, dif_neg hlength]
        rfl
      · constructor
        · rintro ⟨⟩
          exact .tooFew hadmits (Nat.lt_of_not_le hlength)
        · rintro (h | - | ⟨-, h, -⟩ | ⟨-, htakes, -⟩)
          · exact absurd hadmits (by simp [h])
          · rfl
          · exact absurd h hlength
          · exact absurd htakes.length_le hlength

/-- **Checks before the body.** What an operation checks comes out the same for every body, and if it
fails, this is what the call comes to; otherwise the call comes to what the body yields for the
arguments as they are taken. An operation with one argument for each parameter fails for the count of
the arguments exactly if there are not as many as parameters, and otherwise for the leftmost argument
that is refused. One that takes further arguments fails first for its own arity, then for too few
arguments, then for the leftmost argument that is refused, then for the first misfit behind them. -/
theorem checks_before_body (ps : List Parameter) (vs : List Value) :
    (∃ checked : Except EvalError (Arguments ps),
      (∀ body, fixed ps body vs = checked >>= body) ∧
        (∀ e, checked = .error e ↔ FailsFixed ps vs e) ∧
        ∀ args, checked = .ok args ↔ Arguments.Takes ps vs args) ∧
      ∀ (arity : Arity) (kind : ElementKind),
        ∃ checked : Except EvalError (Arguments ps × Elements kind),
          (∀ body, (variadic ps kind body).withArity arity vs =
              checked >>= fun args => body args.1 args.2) ∧
            (∀ e, checked = .error e ↔ FailsVariadic arity ps kind vs e) ∧
            ∀ first rest, checked = .ok (first, rest) ↔ arity.admits vs.length ∧
              Arguments.Takes ps (vs.take ps.length) first ∧ rest.values = vs.drop ps.length :=
  ⟨exists_checked_fixed ps vs, fun arity kind => exists_checked_variadic arity ps kind vs⟩

-- of two arguments that are refused, the left one is reported
example (text : String) (x : Float) (body : Arguments [.number, .string] → Except EvalError Value) :
    fixed [.number, .string] body [.string text, .number x] =
      .error (.typeMismatch "expected number, found string") := by
  rfl

end Operation

end ListLanguage
