import ListLanguage.Host
import ListLanguage.Proofs.Run.Session

/-!
# Guards that no source reaches

Expansion and evaluation check the nesting again, and evaluation checks that an assignment stands at
the head of a list and has one argument. These checks are for forms made by hand. In a dialect whose
one expander is that of definitions, the run of a source never fails at them
(`Environment.run_guards`): reading refuses the forms that are too deep, and expansion the
definitions that are malformed, so that every assignment is made at the head of a list of two
elements.
-/

namespace ListLanguage

/-- An error that evaluation raises at a list that is too deep, at an assignment that is called
nowhere, or at one whose arguments are miscounted. -/
def EvalError.IsGuard : EvalError → Prop
  | depthExceeded _ => True
  | uncallableHead _ => True
  | arityMismatch operation _ _ => operation = some "def"
  | _ => False

/-- An error of a check that is made for forms that no source gives. -/
def Error.IsGuard : Error → Prop
  | expansion e => e.kind = .depthExceeded
  | evaluation e => e.IsGuard
  | _ => False

/-- No operation of the language is called `def`. -/
theorem Builtin.id_ne_def (op : Builtin) : op.id ≠ "def" := by
  cases op <;> decide

theorem Builtin.not_isGuard_of_call_eq_error {op : Builtin} {args : List Value} {e : EvalError}
    (h : op.call args = .error e) : ¬e.IsGuard := by
  rcases op.call_eq_error h with ⟨-, rfl⟩ | ⟨text, rfl⟩ | ⟨-, -, rfl⟩
  · exact fun hdef => op.id_ne_def (Option.some.inj hdef)
  · exact fun hguard => hguard
  · exact fun hguard => hguard

/-- An operation that never fails with the error of a guard. -/
def Operation.RaisesNoGuard (operation : Operation) : Prop :=
  ∀ args e, operation args = .error e → ¬e.IsGuard

/-- An error of `def` is no guard. -/
theorem ExpansionError.IsOfDefinition.kind_ne {e : ExpansionError} (h : e.IsOfDefinition) :
    e.kind ≠ .depthExceeded := by
  rcases h.2 with ⟨got, -, hkind⟩ | hkind <;> simp [hkind]

/-- Any value may come up, with any error but those of the guards. -/
theorem Dialect.isClosed_of_raisesNoGuard {d : Dialect}
    (hhost : ∀ name operation, d.resolve? name = some operation → operation.RaisesNoGuard) :
    d.IsClosed (fun _ => True) fun e => ¬e.IsGuard := by
  have htakes : ∀ operation : Operation, operation.RaisesNoGuard →
      operation.Takes (fun _ => True) (fun _ => True) fun e => ¬e.IsGuard := by
    intro operation hraises args _
    cases hresult : operation args with
    | ok v => trivial
    | error e => exact hraises args e hresult
  exact ⟨⟨fun _ _ => trivial, fun op => htakes _ fun args e => op.not_isGuard_of_call_eq_error,
    fun name operation hname => htakes _ (hhost name operation hname)⟩,
    fun _ => trivial, trivial, fun _ => id⟩

namespace Environment

variable {env : Environment} {source : String} {lenient : Bool}

/-- What is read keeps the limit, so expansion cannot fail at it. -/
theorem isOfDefinition_of_expandAll_eq_error (hdefinitions : env.toDialect.ExpandsDefinitions)
    {tokens : List Token} {forms : List Form} {e : ExpansionError}
    (hforms : Form.ofTokens tokens env.limit = .ok forms)
    (he : env.toDialect.expandAll forms = .error e) :
    e.IsOfDefinition ∧ ∃ form ∈ forms, ¬form.IsWellDefined := by
  rcases Dialect.expandAll_eq_error hdefinitions he with ⟨-, form, hform, hdeep⟩ | hformed
  · have := Form.depth_le_of_ofTokens_eq_ok hforms form hform
    omega
  · exact hformed

theorem not_isGuard_of_program_eq_error (hdefinitions : env.toDialect.ExpandsDefinitions) {e : Error}
    (he : env.toDialect.program source lenient = .error e) : ¬e.IsGuard := by
  rcases Dialect.program_eq_error_iff.mp he with ⟨fault, -, rfl⟩ | ⟨tokens, fault, -, -, rfl⟩ |
    ⟨tokens, forms, fault, -, hforms, hfault, rfl⟩
  · exact id
  · exact id
  · exact (isOfDefinition_of_expandAll_eq_error hdefinitions hforms hfault).1.kind_ne

theorem not_isGuard_of_run_eq_error (hdefinitions : env.toDialect.ExpandsDefinitions)
    (hhost : ∀ name operation, env.toDialect.resolve? name = some operation →
      operation.RaisesNoGuard)
    {e : Error} (he : (env.run source lenient).1 = .error e) : ¬e.IsGuard := by
  cases hprogram : env.toDialect.program source lenient with
  | error fault =>
    rw [run_of_program_eq_error hprogram] at he
    cases he
    exact not_isGuard_of_program_eq_error hdefinitions hprogram
  | ok forms =>
    have hevaluation : ∀ e, (env.run source lenient).1 = .error (.evaluation e) → ¬e.IsGuard :=
      (of_shows_run hdefinitions (Dialect.isClosed_of_raisesNoGuard hhost)
        (fun _ _ _ _ _ => trivial) (fun _ _ _ => trivial)).2
    have hresult := he
    rw [run_of_program_eq_ok env hprogram] at hresult
    rcases Dialect.evalProgram_eq_error hresult with rfl | ⟨e, rfl⟩
    · exact fun hguard => hguard
    · exact hevaluation e he

variable {tokens : List Token}

/-- Tokens that nest too deeply are refused for that. -/
theorem exists_run_eq_tooDeeplyNested (htokens : tokenize source lenient = .ok tokens)
    {before : List Mark} (hbefore : before <+: tokens.map Token.mark)
    (hlow : ∀ first, first <+: before → 0 ≤ Mark.height first)
    (hhigh : env.limit < Mark.height before) :
    ∃ token ∈ tokens, (env.run source lenient).1 =
      .error (.parse (.tooDeeplyNested token.offset env.limit)) := by
  obtain ⟨token, htoken, hfault⟩ := Form.ofTokens_eq_error_of_height_gt hbefore hlow hhigh
  have hprogram : env.toDialect.program source lenient =
      .error (.parse (.tooDeeplyNested token.offset env.limit)) :=
    Dialect.program_eq_error_iff.mpr (.inr (.inl ⟨tokens, _, htokens, hfault, rfl⟩))
  exact ⟨token, htoken, by rw [run_of_program_eq_error hprogram]⟩

/-- A malformed list is refused by `def`. -/
theorem exists_run_eq_isOfDefinition (hdefinitions : env.toDialect.ExpandsDefinitions)
    (htokens : tokenize source lenient = .ok tokens) {forms : List Form}
    (hforms : Form.ofTokens tokens env.limit = .ok forms)
    (hmalformed : ∃ form ∈ forms, ¬form.IsWellDefined) :
    ∃ e, (env.run source lenient).1 = .error (.expansion e) ∧ e.IsOfDefinition := by
  cases hexpanded : env.toDialect.expandAll forms with
  | ok out =>
    have hall := ((Dialect.expandAll_eq_ok_iff hdefinitions).mp hexpanded).1
    obtain ⟨form, hform, hnot⟩ := hmalformed
    exact absurd (hall form hform).2 hnot
  | error fault =>
    have hprogram : env.toDialect.program source lenient = .error (.expansion fault) :=
      Dialect.program_eq_error_iff.mpr
        (.inr (.inr ⟨tokens, forms, fault, htokens, hforms, hexpanded, rfl⟩))
    refine ⟨fault, by rw [run_of_program_eq_error hprogram], ?_⟩
    exact (isOfDefinition_of_expandAll_eq_error hdefinitions hforms hexpanded).1

/-- **No source reaches the guards.** Let definitions be what a dialect expands, and let no
operation of the host raise the error of a guard. Then no run does, whatever is bound; tokens that
nest too deeply are refused for that when they are gathered into forms; and if the forms can be read
and a list in one of them is malformed, the run fails with an error of `def`. -/
theorem run_guards (hdefinitions : env.toDialect.ExpandsDefinitions)
    (hhost : ∀ name operation, env.toDialect.resolve? name = some operation →
      operation.RaisesNoGuard)
    (source : String) (lenient : Bool) :
    (∀ e, (env.run source lenient).1 = .error e → ¬e.IsGuard) ∧
      ∀ tokens, tokenize source lenient = .ok tokens →
        (∀ before, before <+: tokens.map Token.mark →
          (∀ first, first <+: before → 0 ≤ Mark.height first) → env.limit < Mark.height before →
          ∃ token ∈ tokens, (env.run source lenient).1 =
            .error (.parse (.tooDeeplyNested token.offset env.limit))) ∧
        ∀ forms, Form.ofTokens tokens env.limit = .ok forms →
          (∃ form ∈ forms, ¬form.IsWellDefined) →
          ∃ e, (env.run source lenient).1 = .error (.expansion e) ∧ e.IsOfDefinition := by
  refine ⟨fun e he => not_isGuard_of_run_eq_error hdefinitions hhost he, fun tokens htokens => ?_⟩
  refine ⟨fun before hbefore hlow hhigh => ?_, fun forms hforms hmalformed => ?_⟩
  · exact exists_run_eq_tooDeeplyNested htokens hbefore hlow hhigh
  · exact exists_run_eq_isOfDefinition hdefinitions htokens hforms hmalformed

/-- With a clock of the host and a limit of one list: the clock may be read wrongly, a list in a list
is refused for its depth, and a definition without a value by `def`, but no guard fails. -/
theorem run_guards_clock :
    let clock : Operation := .fixed [] fun _ => .ok (.ofInt 12)
    let env := (standard.setLimit 1).setResolver (({} : HostTable).insert "now" clock).resolve?
    (∀ e, (env.run "(now 1)").1 = .error e → ¬e.IsGuard) ∧
      (∃ offset, (env.run "((now))").1 = .error (.parse (.tooDeeplyNested offset 1))) ∧
      ∃ e, (env.run "(def x)").1 = .error (.expansion e) ∧ e.IsOfDefinition := by
  intro clock env
  have hdefinitions : env.toDialect.ExpandsDefinitions := rfl
  have hhost : ∀ name operation, env.toDialect.resolve? name = some operation →
      operation.RaisesNoGuard := by
    intro name operation hname args e he
    have hoperation : clock = operation := by
      rw [show env.toDialect.resolve? name = (({} : HostTable).insert "now" clock).resolve? name
        from rfl, HostTable.resolve?_insert] at hname
      split at hname
      · exact Option.some.inj hname
      · simp [HostTable.resolve?] at hname
    subst hoperation
    simp only [clock, Operation.fixed] at he
    split at he
    · cases he
    · cases he
      simp [EvalError.IsGuard]
  refine ⟨(run_guards hdefinitions hhost "(now 1)" false).1, ?_, ?_⟩
  · have htokens : tokenize "((now))" = .ok [⟨.opening, "(", 0⟩, ⟨.opening, "(", 1⟩,
        ⟨.symbol, "now", 2⟩, ⟨.closing, ")", 5⟩, ⟨.closing, ")", 6⟩] := rfl
    have hlow : ∀ first, first <+: [Mark.opening, .opening] → 0 ≤ Mark.height first := by
      intro first hfirst
      simp only [List.prefix_cons_iff, List.prefix_nil] at hfirst
      obtain rfl | ⟨_, rfl, rfl | ⟨_, rfl, rfl⟩⟩ := hfirst <;> decide
    obtain ⟨token, -, hrun⟩ := ((run_guards hdefinitions hhost "((now))" false).2 _ htokens).1
      [.opening, .opening] ⟨_, rfl⟩ hlow (by decide)
    exact ⟨token.offset, hrun⟩
  · have htokens : tokenize "(def x)" = .ok [⟨.opening, "(", 0⟩, ⟨.symbol, "def", 1⟩,
        ⟨.symbol, "x", 5⟩, ⟨.closing, ")", 6⟩] := rfl
    have hmalformed : ¬(Form.list [.symbol "def", .symbol "x"]).IsWellDefined :=
      fun h => (Form.isWellDefined_list_iff.mp h).1 ⟨[.symbol "x"], rfl, by simp⟩
    exact ((run_guards hdefinitions hhost "(def x)" false).2 _ htokens).2
      [.list [.symbol "def", .symbol "x"]] rfl ⟨_, List.mem_singleton_self _, hmalformed⟩

end Environment

end ListLanguage
