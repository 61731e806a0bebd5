import ListLanguage.Proofs.Run.Session
import ListLanguage.Proofs.Value.Nesting

/-!
# How deep values become

The limit is on the forms that are read, not on the values that are bound: a list may have a symbol
for an element, and then it lies one deeper than the value of the symbol. With a limit of one list or
none, no list can be bound, since a definition is a list itself, and so no value is deeper than the
limit. With a limit of two, a name can be bound to a list with its own value in it, again and again,
and there is no bound on the depth of values (`Environment.session_depth`).
-/

namespace ListLanguage

open Evaluation Form

/-! ### Limits of one list or none -/

namespace Dialect

variable {d : Dialect} {depth : Nat}

/-- A call without any list among its arguments yields none, and a list of what is no list is one
list. -/
theorem leads_depth (hhost : d.resolver = none) :
    d.Leads (fun v => v.depth = 0) (fun v => v.depth ≤ 1) fun _ => True where
  list vs hvs := by
    rw [Value.depth_list]
    exact Nat.succ_le_succ (Value.depthAll_le_iff.mpr fun v hv => (hvs v hv).le)
  builtin op args hargs := by
    cases hresult : op.call args with
    | error e => trivial
    | ok v =>
      cases Builtin.call_eq_ok hresult with
      | number x => simp [Value.depth]
      | joined heq => simp [Value.depth, Value.ofContent]
      | element heq hv => simp [heq] at hargs
      | sublist heq hpart => simp [heq] at hargs
  host name operation hname := by
    rw [resolve?, hhost] at hname
    cases hname

/-- What is no list evaluates to no list while none is bound. -/
theorem keeps_evalAt_of_depth_eq_zero {form : Form} (h : form.depth = 0) :
    Keeps (Bindings.Hold fun v => v.depth = 0) (fun v => v.depth = 0) (fun _ => True)
      (d.evalAt depth form) := by
  cases form with
  | number x => exact keeps_pure (by simp [Value.depth])
  | string stored => exact keeps_pure (by simp [Value.depth])
  | symbol name => exact keeps_lookup (by simp [Value.depth]) trivial
  | assign name => exact keeps_throw trivial
  | list elements => simp at h

/-- A list of what is no list evaluates to one list at most, and binds none. -/
theorem keeps_eval_of_depth_le_one (hhost : d.resolver = none) {form : Form}
    (hwritten : form.IsWritten) (h : form.depth ≤ 1) :
    Keeps (Bindings.Hold fun v => v.depth = 0) (fun v => v.depth ≤ form.depth) (fun _ => True)
      (d.eval form.assigned) := by
  cases form with
  | list elements =>
    have hatoms : ∀ form ∈ elements, form.depth = 0 :=
      fun form hform => Nat.lt_one_iff.mp ((depth_lt_of_mem hform).trans_le h)
    have hassigned : elements.map assigned = elements :=
      (List.map_congr_left fun form hform => assigned_of_depth_eq_zero (hatoms form hform)).trans
        (List.map_id elements)
    have hkeeps : Keeps (Bindings.Hold fun v => v.depth = 0) (fun v => v.depth ≤ 1)
        (fun _ => True) (d.evalList 1 (rewriteDefinition (elements.map assigned))) := by
      rcases rewriteDefinition_map_assigned elements with ⟨name, form, rfl, heq⟩ | heq
      · rw [heq, assigned_of_depth_eq_zero (hatoms form (by simp))]
        exact (keeps_evalList_assign name (keeps_evalAt_of_depth_eq_zero
          (hatoms form (by simp)))).mono fun v hv => Nat.le_succ_of_le hv.le
      · rw [heq, hassigned]
        refine keeps_evalList (leads_depth hhost) (fun name args hhead => ?_) fun form hform =>
          keeps_evalAt_of_depth_eq_zero (hatoms form hform)
        have hassign := hwritten.of_mem (hhead ▸ List.mem_cons_self)
        exact hassign name (by simp [leaves_of_depth_eq_zero])
    rw [eval, assigned_list, evalAt]
    split
    · exact keeps_throw trivial
    · refine hkeeps.mono fun v hv => ?_
      rw [depth_list]
      omega
  | _ =>
    rw [assigned_of_depth_eq_zero (by simp)]
    exact (keeps_evalAt_of_depth_eq_zero (by simp)).mono fun v hv => by omega

end Dialect

namespace Environment

variable {env : Environment}

/-- **Run**: while no list is bound and the limit is one list or none, a run returns a value within
the limit and binds no list. -/
theorem depth_le_of_run (hdefinitions : env.toDialect.ExpandsDefinitions)
    (hhost : env.resolver = none) (hlimit : env.limit ≤ 1)
    (henv : env.bindings.Hold fun v => v.depth = 0) (source : String) (lenient : Bool) :
    (∀ v, (env.run source lenient).1 = .ok v → v.depth ≤ env.limit) ∧
      (env.run source lenient).2.bindings.Hold fun v => v.depth = 0 := by
  obtain ⟨hvalue, -, hafter⟩ := keeps_run (P := fun v => v.depth ≤ env.limit) hdefinitions
    (fun tokens forms _ hforms form hform => by
      have hdepth := depth_le_of_ofTokens_eq_ok hforms form hform
      exact (Dialect.keeps_eval_of_depth_le_one hhost (isWritten_of_ofTokens_eq_ok hforms hform)
        (hdepth.trans hlimit)).mono fun v hv => hv.trans hdepth) henv
  exact ⟨hvalue, hafter⟩

/-- While no list is bound and the limit is one list or none, a session shows only values within the
limit. -/
theorem depth_le_of_session (env : Environment) (hdefinitions : env.toDialect.ExpandsDefinitions)
    (hhost : env.resolver = none) (hlimit : env.limit ≤ 1)
    (henv : env.bindings.Hold fun v => v.depth = 0) (submissions : List Submission) :
    ∀ outcome ∈ env.session submissions, ∀ v, Shows outcome v → v.depth ≤ env.limit := by
  refine forall_mem_session (I := Bindings.Hold fun v => v.depth = 0)
    (fun other hdialect hother submission _ => ?_) henv
  rw [← hdialect] at hdefinitions hhost hlimit ⊢
  obtain ⟨hvalue, hafter⟩ := depth_le_of_run hdefinitions hhost hlimit hother
    submission.source submission.lenient
  refine ⟨?_, hafter⟩
  rintro v (hv | ⟨name, hname⟩)
  · exact hvalue v hv
  · exact (hafter name v hname).le.trans (Nat.zero_le _)

/-! ### Limits of two lists or more -/

variable (env)

/-- The run of a definition binds its name to what its form evaluates to. -/
theorem run_definition (hdefinitions : env.toDialect.ExpandsDefinitions) {source name : String}
    {tokens : List Token} {form : Form} {v : Value} (htokens : tokenize source = .ok tokens)
    (hmarks : outlineAll [list [symbol "def", symbol name, form]] = tokens.map Token.mark)
    (hformed : form.IsWellDefined) (hassigned : form.assigned = form)
    (hdepth : form.depth + 1 ≤ env.limit)
    (heval : env.toDialect.evalAt 1 form env.bindings = .ok v env.bindings) :
    env.run source = (.ok v, env.define name v) := by
  have hkeeps : (list [symbol "def", symbol name, form]).depth ≤ env.limit := by
    rw [depth_list]
    simpa [depthAll] using hdepth
  have hwell : (list [symbol "def", symbol name, form]).IsWellDefined := by
    refine isWellDefined_list_iff.mpr ⟨?_, ?_⟩
    · rintro ⟨tail, heq, hne⟩
      cases heq
      exact hne name form rfl
    · simp [isWellDefined_of_depth_eq_zero, hformed]
  have hprogram : env.toDialect.program source = .ok [list [.assign name, form]] := by
    refine Dialect.program_eq_ok_iff.mpr ⟨tokens, _, htokens, ofTokens_eq_ok_of_outlineAll hmarks
      (List.forall_mem_singleton.mpr hkeeps), ?_⟩
    refine (Dialect.expandAll_eq_ok_iff hdefinitions).mpr
      ⟨List.forall_mem_singleton.mpr ⟨hkeeps, hwell⟩, ?_⟩
    simp [assigned_list, assigned_of_depth_eq_zero, hassigned, rewriteDefinition]
  have hresult : env.toDialect.eval (list [.assign name, form]) env.bindings =
      .ok v (env.bindings.insert name (.value v)) := by
    rw [Dialect.eval, Dialect.evalAt, if_neg (by omega), Dialect.evalList]
    change (env.toDialect.evalAt 1 form >>= assign name) env.bindings = _
    simp only [Bind.bind, EStateM.bind, heval]
    rfl
  rw [run_of_program_eq_ok env hprogram, Dialect.evalProgram_singleton hresult]
  rfl

/-- **Step**: a name that is bound to a value is bound to the list with that value in it. -/
theorem run_wrap (hdefinitions : env.toDialect.ExpandsDefinitions) (hhost : env.resolver = none)
    (hlimit : 2 ≤ env.limit) {v : Value} (hv : env.get? "x" = some (.value v)) :
    env.run "(def x (x))" = (.ok (.list [v]), env.define "x" (.list [v])) := by
  have htokens : tokenize "(def x (x))" = .ok [⟨.opening, "(", 0⟩, ⟨.symbol, "def", 1⟩,
      ⟨.symbol, "x", 5⟩, ⟨.opening, "(", 7⟩, ⟨.symbol, "x", 8⟩, ⟨.closing, ")", 9⟩,
      ⟨.closing, ")", 10⟩] := rfl
  have hbound : env.bindings["x"]? = some (.value v) := hv
  have hcallee : env.toDialect.callee? env.bindings (symbol "x") = none := by
    simp [Dialect.callee?, Dialect.resolve?, hbound, hhost]
  have hlookup : lookup "x" env.bindings = .ok v env.bindings := by
    rw [lookup, get_bind_apply, hbound]
    rfl
  have heval : env.toDialect.evalAt 1 (list [symbol "x"]) env.bindings =
      .ok (.list [v]) env.bindings := by
    rw [Dialect.evalAt, if_neg (by omega), Dialect.evalList, get_bind_apply, hcallee]
    simp only [Bind.bind, EStateM.bind, Dialect.evalAt, Dialect.evalEach, hlookup]
    rfl
  refine run_definition env hdefinitions htokens rfl ?_ ?_ (by simpa [depthAll] using hlimit) heval
  · refine isWellDefined_list_iff.mpr ⟨?_, by simp [isWellDefined_of_depth_eq_zero]⟩
    rintro ⟨tail, heq, -⟩
    simp at heq
  · simp [assigned_list, assigned_of_depth_eq_zero, rewriteDefinition]

/-- The definition of a name by the empty list. -/
theorem run_empty (hdefinitions : env.toDialect.ExpandsDefinitions) (hlimit : 2 ≤ env.limit) :
    env.run "(def x ())" = (.ok (.list []), env.define "x" (.list [])) := by
  have htokens : tokenize "(def x ())" = .ok [⟨.opening, "(", 0⟩, ⟨.symbol, "def", 1⟩,
      ⟨.symbol, "x", 5⟩, ⟨.opening, "(", 7⟩, ⟨.closing, ")", 8⟩, ⟨.closing, ")", 9⟩] := rfl
  have heval : env.toDialect.evalAt 1 (list []) env.bindings = .ok (.list []) env.bindings := by
    rw [Dialect.evalAt, if_neg (by omega)]
    rfl
  refine run_definition env hdefinitions htokens rfl ?_ ?_ (by simpa [depthAll] using hlimit) heval
  · refine isWellDefined_list_iff.mpr ⟨?_, by simp⟩
    rintro ⟨tail, heq, -⟩
    simp at heq
  · simp [assigned_list, rewriteDefinition]

/-- **Session**: with each further run the value of the name is one list deeper. -/
theorem exists_shows_of_wraps (hdefinitions : env.toDialect.ExpandsDefinitions)
    (hhost : env.resolver = none) (hlimit : 2 ≤ env.limit) {v : Value}
    (hv : env.get? "x" = some (.value v)) (n : Nat) :
    ∃ outcome ∈ env.session (List.replicate (n + 1) ⟨"(def x (x))", false⟩),
      ∃ u, Shows outcome u ∧ u.depth = v.depth + n + 1 := by
  induction n generalizing env v with
  | zero =>
    refine ⟨_, List.mem_cons_self, .list [v], .inl ?_, by simp [Value.depthAll]⟩
    rw [run_wrap env hdefinitions hhost hlimit hv]
  | succ n ih =>
    have hnext : (env.define "x" (.list [v])).get? "x" = some (.value (.list [v])) := by simp
    obtain ⟨outcome, houtcome, u, hu, hdepth⟩ :=
      ih (env.define "x" (.list [v])) hdefinitions hhost hlimit hnext
    refine ⟨outcome, ?_, u, hu, ?_⟩
    · rw [List.replicate_succ, session, run_wrap env hdefinitions hhost hlimit hv]
      exact List.mem_cons_of_mem _ houtcome
    · simp only [Value.depth_list, Value.depthAll, Nat.max_zero] at hdepth
      omega

/-- A session in which a name is bound to ever deeper values. -/
def wraps (n : Nat) : List Submission :=
  ⟨"(def x ())", false⟩ :: List.replicate (n + 1) ⟨"(def x (x))", false⟩

theorem exists_shows_of_session_wraps {limit : Nat} (hlimit : 2 ≤ limit) (n : Nat) :
    ∃ outcome ∈ (standard.setLimit limit).session (wraps n),
      ∃ v, Shows outcome v ∧ v.depth = n + 2 := by
  have hrun := run_empty (standard.setLimit limit) rfl hlimit
  have hbound : ((standard.setLimit limit).define "x" (.list [])).get? "x" =
      some (.value (.list [])) := by simp
  obtain ⟨outcome, houtcome, v, hv, hdepth⟩ := exists_shows_of_wraps
    ((standard.setLimit limit).define "x" (.list [])) rfl rfl hlimit hbound n
  refine ⟨outcome, ?_, v, hv, ?_⟩
  · rw [wraps, session, hrun]
    exact List.mem_cons_of_mem _ houtcome
  · rw [hdepth]
    simp [Value.depthAll]
    omega

/-- **How deep values become.** With a limit of one list or none, a session in the standard
environment shows only values within the limit. With any other limit, it can show values that are
as deep as one likes. -/
theorem session_depth (limit : Nat) :
    (limit ≤ 1 → ∀ submissions, ∀ outcome ∈ (standard.setLimit limit).session submissions,
      ∀ v, Shows outcome v → v.depth ≤ limit) ∧
    (2 ≤ limit → ∀ n, ∃ submissions, ∃ outcome ∈ (standard.setLimit limit).session submissions,
      ∃ v, Shows outcome v ∧ n < v.depth) := by
  refine ⟨fun hlimit submissions => ?_, fun hlimit n => ?_⟩
  · exact depth_le_of_session (standard.setLimit limit) rfl rfl hlimit hold_standard submissions
  · obtain ⟨outcome, houtcome, v, hv, hdepth⟩ := exists_shows_of_session_wraps hlimit n
    exact ⟨wraps n, outcome, houtcome, v, hv, by omega⟩

/-- The third run returns a value of three lists, where two are allowed. -/
theorem session_depth_gt_two :
    ¬∀ outcome ∈ (standard.setLimit 2).session [⟨"(def x ())", false⟩, ⟨"(def x (x))", false⟩,
      ⟨"(def x (x))", false⟩], ∀ v, Shows outcome v → v.depth ≤ 2 := by
  intro h
  obtain ⟨outcome, houtcome, v, hv, hdepth⟩ := exists_shows_of_session_wraps (Nat.le_refl 2) 1
  have := h outcome houtcome v hv
  omega

end Environment

end ListLanguage
