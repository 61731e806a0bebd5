import ListLanguage.Proofs.Evaluation.Assignments
import ListLanguage.Proofs.Except

/-!
# The stages of a run

A run succeeds or fails stage by stage. Before evaluation, a source is cut into tokens, which are
gathered into forms, which are expanded; the first stage that fails decides the outcome
(`Dialect.program_eq_ok_iff`, `Dialect.program_eq_error_iff`). If none fails, the run is the
evaluation of the expanded forms (`Environment.run_of_program_eq_ok`).
-/

namespace ListLanguage

namespace Dialect

variable {d : Dialect} {source : String} {lenient : Bool} {forms : List Form} {e : Error}

/-- A program is cut into tokens, which are gathered into forms, which are expanded. -/
theorem program_eq_ok_iff :
    d.program source lenient = .ok forms ↔
      ∃ tokens written, tokenize source lenient = .ok tokens ∧
        Form.ofTokens tokens d.limit = .ok written ∧ d.expandAll written = .ok forms := by
  rw [program, Form.ofSource]
  simp only [Except.bind_eq_ok_iff, Except.mapError_eq_ok_iff]
  constructor
  · rintro ⟨written, ⟨tokens, htokens, hwritten⟩, hforms⟩
    exact ⟨tokens, written, htokens, hwritten, hforms⟩
  · rintro ⟨tokens, written, htokens, hwritten, hforms⟩
    exact ⟨written, ⟨tokens, htokens, hwritten⟩, hforms⟩

/-- A program fails in cutting, in gathering or in expanding. -/
theorem program_eq_error_iff :
    d.program source lenient = .error e ↔
      (∃ fault, tokenize source lenient = .error fault ∧ e = .lex fault) ∨
      (∃ tokens fault, tokenize source lenient = .ok tokens ∧
        Form.ofTokens tokens d.limit = .error fault ∧ e = .parse fault) ∨
      ∃ tokens written fault, tokenize source lenient = .ok tokens ∧
        Form.ofTokens tokens d.limit = .ok written ∧ d.expandAll written = .error fault ∧
          e = .expansion fault := by
  rw [program, Form.ofSource]
  simp only [Except.bind_eq_error_iff, Except.bind_eq_ok_iff, Except.mapError_eq_error_iff,
    Except.mapError_eq_ok_iff]
  constructor
  · rintro ((⟨fault, hfault, rfl⟩ | ⟨tokens, htokens, fault, hfault, rfl⟩) |
      ⟨written, ⟨tokens, htokens, hwritten⟩, fault, hfault, rfl⟩)
    · exact .inl ⟨fault, hfault, rfl⟩
    · exact .inr (.inl ⟨tokens, fault, htokens, hfault, rfl⟩)
    · exact .inr (.inr ⟨tokens, written, fault, htokens, hwritten, hfault, rfl⟩)
  · rintro (⟨fault, hfault, rfl⟩ | ⟨tokens, fault, htokens, hfault, rfl⟩ |
      ⟨tokens, written, fault, htokens, hwritten, hfault, rfl⟩)
    · exact .inl (.inl ⟨fault, hfault, rfl⟩)
    · exact .inl (.inr ⟨tokens, htokens, fault, hfault, rfl⟩)
    · exact .inr ⟨written, ⟨tokens, htokens, hwritten⟩, fault, hfault, rfl⟩

/-- A program of one form yields what the form evaluates to. -/
theorem evalProgram_singleton {form : Form} {bindings after : Bindings} {v : Value}
    (h : d.eval form bindings = .ok v after) : d.evalProgram [form] bindings = (.ok v, after) := by
  have hlast : d.evalLast [form] bindings = .ok (some v) after := by
    change (some <$> d.eval form >>= fun last => pure last : Evaluation (Option Value)) bindings = _
    simp only [Bind.bind, EStateM.bind, Functor.map, EStateM.map, h]
    rfl
  rw [evalProgram, hlast]

/-- Expanded forms fail in evaluation, or because there are none. -/
theorem evalProgram_eq_error {bindings : Bindings} (h : (d.evalProgram forms bindings).1 = .error e) :
    e = .noExpressions ∨ ∃ e', e = .evaluation e' := by
  rw [evalProgram] at h
  split at h
  · cases h
  · exact .inl (Except.error.inj h).symm
  · exact .inr ⟨_, (Except.error.inj h).symm⟩

end Dialect

namespace Environment

/-- A run evaluates the forms of its program. -/
theorem run_of_program_eq_ok (env : Environment) {source : String} {lenient : Bool}
    {forms : List Form} (h : env.toDialect.program source lenient = .ok forms) :
    env.run source lenient =
      ((env.toDialect.evalProgram forms env.bindings).1,
        { env with bindings := (env.toDialect.evalProgram forms env.bindings).2 }) := by
  simp only [run, h]

/-- An outcome can be compared with a string, since strings are equal only to themselves. -/
theorem eq_ok_string {result : Except Error Value} {stored : String}
    (h : result.toOption.any (· == .string stored)) : result = .ok (.string stored) := by
  cases result with
  | error e => cases h
  | ok v =>
    cases v with
    | string text => exact congrArg (fun s => Except.ok (Value.string s)) (beq_iff_eq.mp h)
    | _ => cases h

end Environment

end ListLanguage
