import ListLanguage.Proofs.Evaluation.Congruence
import ListLanguage.Proofs.Except
import ListLanguage.Proofs.Form.Limit

/-!
# Raising the limit

The limit on nesting is read while tokens are gathered into forms, in expansion, and in evaluation.
Each of these stages either goes on below the limit or fails at it, and nothing else depends on the
limit. So with a higher one, each stage has the same outcome, unless it failed at the lower one, and
so has a run (`Environment.run_setLimit`). Expanders may nest their lists as deep as they like, and
an expander or an operation of the host may raise the error of the limit itself; such a run counts
as one that fails at the limit.

For evaluation, having the same outcome is a congruence of computations
(`Evaluation.isCongruence_sameUnless`), so only lists, where the limit is read, are looked at.
-/

namespace ListLanguage

/-! ### Failing at the limit -/

/-- A list is opened inside as many lists as are allowed. -/
def ParseError.IsOfLimit (e : ParseError) : Prop :=
  e.kind = .tooDeeplyNested

/-- A form that is too deep is expanded. -/
def ExpansionError.IsOfLimit (e : ExpansionError) : Prop :=
  e.kind = .depthExceeded

/-- A form that is too deep is evaluated. -/
def EvalError.IsOfLimit (e : EvalError) : Prop :=
  ∃ limit, e = .depthExceeded limit

/-- An error that a stage of a run raises at the limit on nesting. -/
def Error.IsOfLimit : Error → Prop
  | parse e => e.IsOfLimit
  | expansion e => e.IsOfLimit
  | evaluation e => e.IsOfLimit
  | _ => False

/-- A dialect with another limit on nesting. -/
def Dialect.withLimit (d : Dialect) (limit : Nat) : Dialect :=
  { d with limit }

@[simp]
theorem Dialect.limit_withLimit (d : Dialect) (limit : Nat) : (d.withLimit limit).limit = limit := rfl

namespace Environment

variable (env : Environment) (limit : Nat)

@[simp]
theorem toDialect_setLimit : (env.setLimit limit).toDialect = env.toDialect.withLimit limit := rfl

@[simp]
theorem bindings_setLimit : (env.setLimit limit).bindings = env.bindings := rfl

end Environment

open Except

variable {m m' : Nat}

/-! ### Gathering tokens into forms -/

namespace Reader

/-- **Step**: with a higher limit, a token is read as with the lower one. -/
theorem sameUnless_step (hle : m ≤ m') (r : Reader) (token : Token) :
    SameUnless ParseError.IsOfLimit (r.step m token) (r.step m' token) := by
  cases hmark : token.mark with
  | opening =>
    rw [step_of_mark_opening hmark, step_of_mark_opening hmark]
    by_cases hroom : m ≤ r.depth
    · rw [if_pos hroom]
      exact .of_error rfl
    · rw [if_neg hroom, if_neg (by omega)]
      exact .refl _ _
  | closing =>
    cases hopen : r.enclosing with
    | nil =>
      rw [step_of_mark_closing_nil hmark hopen, step_of_mark_closing_nil hmark hopen]
      exact .refl _ _
    | cons elements outer =>
      rw [step_of_mark_closing_cons hmark hopen, step_of_mark_closing_cons hmark hopen]
      exact .refl _ _
  | leaf form =>
    rw [step_of_mark_leaf hmark, step_of_mark_leaf hmark]
    exact .refl _ _

end Reader

namespace Form

theorem sameUnless_ofTokens (hle : m ≤ m') (tokens : List Token) :
    SameUnless ParseError.IsOfLimit (ofTokens tokens m) (ofTokens tokens m') := by
  have hread : SameUnless ParseError.IsOfLimit (({} : Reader).read m tokens)
      (({} : Reader).read m' tokens) :=
    sameUnless_foldlM (fun r token => Reader.sameUnless_step hle r token) tokens {}
  exact hread.bind fun r => .refl _ _

end Form

/-! ### Expansion -/

namespace Dialect

variable (d : Dialect)

/-- Whatever an expander makes of a list, it does so with any limit. -/
theorem expandHead_withLimit (limit : Nat) :
    (d.withLimit limit).expandHead = d.expandHead := rfl

theorem sameUnless_expandEach {forms : List Form} (depth : Nat)
    (h : ∀ form ∈ forms, SameUnless ExpansionError.IsOfLimit
      ((d.withLimit m).expandAt depth form) ((d.withLimit m').expandAt depth form)) :
    SameUnless ExpansionError.IsOfLimit
      ((d.withLimit m).expandEach depth forms) ((d.withLimit m').expandEach depth forms) := by
  induction forms with
  | nil => exact .refl _ _
  | cons form forms ih =>
    rw [expandEach, expandEach]
    refine (h form List.mem_cons_self).bind fun expanded => ?_
    exact (ih fun other hother => h other (List.mem_cons_of_mem form hother)).bind
      fun rest => .refl _ _

/-- With a higher limit, a form is expanded as with the lower one. -/
theorem sameUnless_expandAt (hle : m ≤ m') (depth : Nat) (form : Form) :
    SameUnless ExpansionError.IsOfLimit
      ((d.withLimit m).expandAt depth form) ((d.withLimit m').expandAt depth form) := by
  induction form using Form.nestingInduction generalizing depth with
  | list elements ih =>
    rw [expandAt, expandAt, limit_withLimit, limit_withLimit]
    by_cases hroom : m ≤ depth
    · rw [if_pos hroom]
      exact .of_error rfl
    · have hroom' : ¬m' ≤ depth := fun hroom' => hroom (hle.trans hroom')
      rw [if_neg hroom, if_neg hroom', expandHead_withLimit, expandHead_withLimit]
      exact (d.sameUnless_expandEach (depth + 1) fun form hform =>
        ih form hform (depth + 1)).bind fun expanded => .refl _ _
  | _ =>
    rw [expandAt, expandAt]
    · exact .refl _ _
    all_goals simp

theorem sameUnless_expandAll (hle : m ≤ m') (forms : List Form) :
    SameUnless ExpansionError.IsOfLimit
      ((d.withLimit m).expandAll forms) ((d.withLimit m').expandAll forms) :=
  d.sameUnless_expandEach 0 fun form _ => d.sameUnless_expandAt hle 0 form

/-- With a higher limit, a source has the same program as with the lower one. -/
theorem sameUnless_program (hle : m ≤ m') (source : String) (lenient : Bool) :
    SameUnless Error.IsOfLimit
      ((d.withLimit m).program source lenient) ((d.withLimit m').program source lenient) := by
  have hforms : SameUnless Error.IsOfLimit (Form.ofSource source lenient m)
      (Form.ofSource source lenient m') :=
    (SameUnless.refl _ ((tokenize source lenient).mapError Error.lex)).bind fun tokens =>
      (Form.sameUnless_ofTokens hle tokens).mapError fun e he => he
  exact hforms.bind fun forms => (d.sameUnless_expandAll hle forms).mapError fun e he => he

end Dialect

/-! ### Computations -/

namespace Evaluation

variable {α β : Type} {E : EvalError → Prop} {x x' : Evaluation α}

/-- The second of two computations has the outcome of the first one, result, error and bindings,
unless the first one fails with an error of a kind. -/
def SameUnless (E : EvalError → Prop) (x x' : Evaluation α) : Prop :=
  ∀ before, x' before = x before ∨ ∃ e after, E e ∧ x before = .error e after

theorem SameUnless.refl (E : EvalError → Prop) (x : Evaluation α) : SameUnless E x x :=
  fun _ => .inl rfl

theorem SameUnless.of_throw {e : EvalError} (he : E e) : SameUnless E (throw e) x' :=
  fun before => .inr ⟨e, before, he, rfl⟩

/-- Computations in sequence have the same outcome as long as each of them has. -/
theorem SameUnless.bind {f f' : α → Evaluation β} (hx : SameUnless E x x')
    (hf : ∀ a, SameUnless E (f a) (f' a)) : SameUnless E (x >>= f) (x' >>= f') := by
  intro before
  simp only [Bind.bind, EStateM.bind]
  rcases hx before with hsame | ⟨e, after, he, hfail⟩
  · rw [hsame]
    cases x before with
    | error e middle => exact .inl rfl
    | ok a middle => exact hf a middle
  · rw [hfail]
    exact .inr ⟨e, after, he, rfl⟩

/-- Having the same outcome is a congruence, where both computations read the same bindings. -/
theorem isCongruence_sameUnless (E : EvalError → Prop) : IsCongruence Eq (SameUnless E) where
  pure a := .refl E (pure a)
  throw e := .refl E (throw e)
  bind := SameUnless.bind
  get_bind hf before := hf before before rfl before

end Evaluation

/-! ### The evaluator -/

namespace Dialect

open Evaluation Form

variable (d : Dialect) (depth : Nat)

/-- What a head calls does not depend on the limit. -/
theorem callee?_withLimit (limit : Nat) : (d.withLimit limit).callee? = d.callee? := rfl

/-- **Step law**: with a higher limit, a form evaluates as with the lower one. -/
theorem sameUnless_evalAt (hle : m ≤ m') (form : Form) :
    SameUnless EvalError.IsOfLimit
      ((d.withLimit m).evalAt depth form) ((d.withLimit m').evalAt depth form) := by
  induction form using nestingInduction generalizing depth with
  | number x => exact .refl _ _
  | string stored => exact .refl _ _
  | symbol name => exact .refl _ _
  | assign name => exact .refl _ _
  | list elements ih =>
    rw [evalAt, evalAt, limit_withLimit, limit_withLimit]
    by_cases hroom : m ≤ depth
    · rw [if_pos hroom]
      exact .of_throw ⟨m, rfl⟩
    · have hroom' : ¬m' ≤ depth := fun hroom' => hroom (hle.trans hroom')
      rw [if_neg hroom, if_neg hroom']
      refine (isCongruence_sameUnless _).evalList (fun head _ b b' hb => ?_) (fun name v => .refl _ _)
        fun form hform => ih form hform (depth + 1)
      rw [callee?_withLimit, callee?_withLimit, hb]

/-- **Run law**: with a higher limit, expanded forms evaluate as with the lower one. -/
theorem sameUnless_evalLast (hle : m ≤ m') (forms : List Form) :
    SameUnless EvalError.IsOfLimit
      ((d.withLimit m).evalLast forms) ((d.withLimit m').evalLast forms) :=
  (isCongruence_sameUnless _).foldlM
    (fun _ form => (isCongruence_sameUnless _).map (d.sameUnless_evalAt 0 hle form) some) forms none

/-- So the program made of them has the same outcome, unless it fails at the lower limit. -/
theorem evalProgram_withLimit (hle : m ≤ m') (forms : List Form) (bindings : Bindings) :
    (d.withLimit m').evalProgram forms bindings = (d.withLimit m).evalProgram forms bindings ∨
      ∃ e, e.IsOfLimit ∧
        ((d.withLimit m).evalProgram forms bindings).1 = .error (.evaluation e) := by
  simp only [evalProgram]
  rcases d.sameUnless_evalLast hle forms bindings with hsame | ⟨e, after, he, hfail⟩
  · exact .inl (by rw [hsame])
  · exact .inr ⟨e, he, by rw [hfail]⟩

end Dialect

/-! ### Runs -/

namespace Environment

/-- **Raising the limit.** A run that does not fail at the limit on nesting has the same outcome
with any higher limit: it returns the same value or the same error, and leaves the same bindings. -/
theorem run_setLimit (env : Environment) (hle : m ≤ m') (source : String) (lenient : Bool)
    (h : ∀ e, ((env.setLimit m).run source lenient).1 = .error e → ¬e.IsOfLimit) :
    (env.setLimit m').run source lenient =
      (((env.setLimit m).run source lenient).1,
        ((env.setLimit m).run source lenient).2.setLimit m') := by
  simp only [run, toDialect_setLimit, bindings_setLimit] at h ⊢
  rcases env.toDialect.sameUnless_program hle source lenient with hsame | ⟨e, he, hfail⟩
  · rw [hsame]
    cases hprogram : (env.toDialect.withLimit m).program source lenient with
    | error e => rfl
    | ok forms =>
      rw [hprogram] at h
      rcases env.toDialect.evalProgram_withLimit hle forms env.bindings with
        hsame | ⟨e, he, hfail⟩
      · simp only [hsame]
        rfl
      · exact absurd he (h (.evaluation e) hfail)
  · rw [hfail] at h
    exact absurd he (h e rfl)

/-- An expander that nests its elements two lists deeper. The source is one list too deep for a limit
of three once it is expanded; from four on, the run binds two names and then fails at a third one. -/
theorem run_setLimit_nest :
    let env := standard.setExpander "nest" fun tail => .ok [.list [.list tail]]
    let source := "(def a 1) (nest (def b 2) (head zz))"
    ((env.setLimit 3).run source).1 = .error (.evaluation (.depthExceeded 3)) ∧
      ((env.setLimit 4).run source).1 = .error (.evaluation (.unboundSymbol "zz")) ∧
      (env.setLimit 9).run source = (.error (.evaluation (.unboundSymbol "zz")),
        ((env.setLimit 4).run source).2.setLimit 9) := by
  intro env source
  have hrun : ((env.setLimit 4).run source).1 = .error (.evaluation (.unboundSymbol "zz")) := by
    decide +kernel
  refine ⟨by decide +kernel, hrun, ?_⟩
  rw [← hrun]
  refine run_setLimit env (by decide) source false fun e he => ?_
  rw [hrun] at he
  cases he
  rintro ⟨limit, hlimit⟩
  cases hlimit

end Environment

end ListLanguage
