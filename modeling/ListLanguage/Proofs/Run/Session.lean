import ListLanguage.Proofs.Evaluation.Invariant
import ListLanguage.Proofs.Form.Limit
import ListLanguage.Proofs.Run.Stages

/-!
# Sessions

A **session** runs some sources in turn, each in the environment that the run before it has left. An
outcome **shows** the value that it returns and the values that are bound in the environment that it
leaves. It makes no difference to the runs that follow whether an outcome is put into words
(`Environment.execute_snd`).

What every run keeps is kept throughout a session (`Environment.forall_mem_session`). So a
property of values that is closed in a dialect is had by all that a session shows, if the strings of
the sources have it (`Environment.of_shows_session`).
-/

namespace ListLanguage

/-- A source to be run, and whether a string may be open at its end. -/
structure Submission where
  source : String
  lenient : Bool := false

/-- The values that an outcome **shows**. -/
def Shows (outcome : Except Error Value × Environment) (v : Value) : Prop :=
  outcome.1 = .ok v ∨ ∃ name, outcome.2.get? name = some (.value v)

namespace Environment

/-- The outcomes of running some sources in turn. -/
def session (env : Environment) : List Submission → List (Except Error Value × Environment)
  | [] => []
  | submission :: rest =>
    let outcome := env.run submission.source submission.lenient
    outcome :: outcome.2.session rest

/-- Putting the outcome of a run into words leaves the same environment. -/
theorem execute_snd (env : Environment) (source : String) :
    (env.execute source).2 = (env.run source).2 := by
  rw [execute]
  split
  split <;> simp [*]

variable {env : Environment} {submissions : List Submission}

/-- **Session law**: if every run in a dialect keeps an invariant of the bindings and has an outcome
of a kind, then the outcomes of a session are of that kind. -/
theorem forall_mem_session {I : Bindings → Prop} {Q : Except Error Value × Environment → Prop}
    (hstep : ∀ other : Environment, other.toDialect = env.toDialect → I other.bindings →
      ∀ submission ∈ submissions,
        Q (other.run submission.source submission.lenient) ∧
          I (other.run submission.source submission.lenient).2.bindings)
    (henv : I env.bindings) : ∀ outcome ∈ env.session submissions, Q outcome := by
  induction submissions generalizing env with
  | nil => exact fun outcome houtcome => absurd houtcome List.not_mem_nil
  | cons submission rest ih =>
    obtain ⟨hfirst, hafter⟩ := hstep env rfl henv submission List.mem_cons_self
    have hdialect : (env.run submission.source submission.lenient).2.toDialect = env.toDialect :=
      (effect_run env submission.source submission.lenient).dialect
    have hrest := ih (fun other hother hinvariant later hlater =>
      hstep other (hother.trans hdialect) hinvariant later (List.mem_cons_of_mem _ hlater)) hafter
    exact List.forall_mem_cons.mpr ⟨hfirst, hrest⟩

variable {I : Bindings → Prop} {P : Value → Prop} {E : EvalError → Prop} {source : String}
  {lenient : Bool}

/-- **Run**: where definitions are all that is expanded, a run keeps what each form that it reads
keeps, once the form is expanded. -/
theorem keeps_run (hdefinitions : env.toDialect.ExpandsDefinitions)
    (h : ∀ tokens forms, tokenize source lenient = .ok tokens →
      Form.ofTokens tokens env.limit = .ok forms → ∀ form ∈ forms,
        Evaluation.Keeps I P E (env.toDialect.eval form.assigned))
    (henv : I env.bindings) :
    (∀ v, (env.run source lenient).1 = .ok v → P v) ∧
      (∀ e, (env.run source lenient).1 = .error (.evaluation e) → E e) ∧
      I (env.run source lenient).2.bindings := by
  cases hprogram : env.toDialect.program source lenient with
  | error e =>
    rw [run_of_program_eq_error hprogram]
    refine ⟨fun v hv => (nomatch hv), fun e' he' => ?_, henv⟩
    rcases Dialect.program_eq_error_iff.mp hprogram with ⟨_, -, rfl⟩ | ⟨_, _, -, -, rfl⟩ |
      ⟨_, _, _, -, -, -, rfl⟩
    all_goals cases he'
  | ok forms =>
    obtain ⟨tokens, written, htokens, hwritten, hforms⟩ := Dialect.program_eq_ok_iff.mp hprogram
    obtain ⟨-, rfl⟩ := (Dialect.expandAll_eq_ok_iff hdefinitions).mp hforms
    rw [run_of_program_eq_ok env hprogram]
    exact Dialect.keeps_evalProgram
      (List.forall_mem_map.mpr (h tokens written htokens hwritten)) henv

/-- A closed property of values is had by all that a run shows, and an error of evaluation is one
that may occur. -/
theorem of_shows_run (hdefinitions : env.toDialect.ExpandsDefinitions)
    (hclosed : env.toDialect.IsClosed P E)
    (hsource : ∀ tokens, tokenize source lenient = .ok tokens →
      ∀ token ∈ tokens, token.kind = .quoted → P (.string token.text))
    (henv : env.bindings.Hold P) :
    (∀ v, Shows (env.run source lenient) v → P v) ∧
      ∀ e, (env.run source lenient).1 = .error (.evaluation e) → E e := by
  obtain ⟨hvalue, herror, hafter⟩ := keeps_run (I := Bindings.Hold P) hdefinitions
    (fun tokens forms htokens hforms form hform => by
      have hdepth := Form.depth_le_of_ofTokens_eq_ok hforms form hform
      refine Dialect.keeps_evalAt_assigned hclosed (Form.isWritten_of_ofTokens_eq_ok hforms hform)
        (fun stored hstored => ?_) (by omega)
      obtain ⟨token, htoken, hkind, rfl⟩ :=
        Form.exists_quoted_of_string_mem_leaves hforms hform hstored
      exact hsource tokens htokens token htoken hkind) henv
  refine ⟨?_, herror⟩
  rintro v (hv | ⟨name, hname⟩)
  · exact hvalue v hv
  · exact hafter name v hname

/-- A closed property of values is had by all that a session shows. -/
theorem of_shows_session (hdefinitions : env.toDialect.ExpandsDefinitions)
    (hclosed : env.toDialect.IsClosed P E)
    (hsource : ∀ submission ∈ submissions, ∀ tokens,
      tokenize submission.source submission.lenient = .ok tokens →
        ∀ token ∈ tokens, token.kind = .quoted → P (.string token.text))
    (henv : env.bindings.Hold P) :
    ∀ outcome ∈ env.session submissions, ∀ v, Shows outcome v → P v := by
  refine forall_mem_session (I := Bindings.Hold P) (fun other hdialect hother submission hmem => ?_)
    henv
  rw [← hdialect] at hdefinitions hclosed
  have hshows := (of_shows_run hdefinitions hclosed (hsource submission hmem) hother).1
  exact ⟨hshows, fun name u hu => hshows u (.inr ⟨name, hu⟩)⟩

/-! ### The standard environment -/

/-- Operations that are bound are no values. -/
theorem hold_foldl_builtin {bindings : Bindings} (h : bindings.Hold P) (ops : List Builtin) :
    Bindings.Hold P (ops.foldl (fun b op => b.insert op.id (.builtin op)) bindings) := by
  induction ops generalizing bindings with
  | nil => exact h
  | cons op ops ih =>
    refine ih fun name v hv => ?_
    rw [Std.ExtTreeMap.getElem?_insert] at hv
    split at hv
    · cases hv
    · exact h name v hv

/-- The standard environment holds no values. -/
theorem hold_standard : standard.bindings.Hold P :=
  hold_foldl_builtin (fun name v hv => by simp at hv) Builtin.all

end Environment

end ListLanguage
