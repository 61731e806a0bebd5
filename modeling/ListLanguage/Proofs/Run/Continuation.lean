import ListLanguage.Proofs.Form.Continuation
import ListLanguage.Proofs.Run.Stages

/-!
# Two programs, one after the other

A source can be put behind another one, with blanks between them. Up to evaluation the two do not
touch: each stage does to the second source what it does to it alone, and the forms of the second
come behind those of the first (`program_append`, `program_append_error`). Evaluation does not
change the dialect, so it makes no difference whether all forms are expanded before the first of
them is evaluated, or those of the second source only after the first one has run.

So running both at once does what running them in turn does, if both **reach evaluation**: no
earlier stage fails, and there is a form to evaluate (`Environment.run_append`). If the second one
fails before, then so do both at once, with the same fault further on, and nothing is evaluated.
-/

namespace ListLanguage

open Text

/-! ### Faults further on -/

/-- The second fault is the first one, found the given number of bytes further on. -/
def Error.IsShifted (bytes : Nat) : Error → Error → Prop
  | .lex e, .lex e' => e'.kind = e.kind ∧ e'.text = e.text ∧ e'.offset = e.offset + bytes
  | .parse e, .parse e' => e.Alike e'
  | .expansion e, .expansion e' => e' = e
  | _, _ => False

namespace Dialect

variable (d : Dialect)

/-! ### Expansion and evaluation -/

/-- Some forms and then others are expanded in turn. -/
theorem expandEach_append (depth : Nat) (forms rest : List Form) :
    d.expandEach depth (forms ++ rest) = (do
      let forms ← d.expandEach depth forms
      let rest ← d.expandEach depth rest
      return forms ++ rest) := by
  induction forms with
  | nil =>
    change d.expandEach depth rest = d.expandEach depth rest >>= fun rest => .ok rest
    cases d.expandEach depth rest <;> rfl
  | cons form forms ih =>
    rw [List.cons_append, expandEach, expandEach, ih]
    cases d.expandAt depth form with
    | error e => rfl
    | ok form =>
      cases d.expandEach depth forms with
      | error e => rfl
      | ok forms => cases d.expandEach depth rest <;> rfl

/-- What is evaluated last decides the value, so what came before is of no account there. -/
theorem foldlM_eval_of_ne_nil {forms : List Form} (h : forms ≠ []) (last : Option Value) :
    forms.foldlM (fun _ form => some <$> d.eval form) last = d.evalLast forms := by
  obtain ⟨form, forms, rfl⟩ := List.exists_cons_of_ne_nil h
  rw [evalLast, List.foldlM_cons, List.foldlM_cons]

/-- Some forms and then others are evaluated in turn. -/
theorem evalLast_append {rest : List Form} (forms : List Form) (h : rest ≠ []) :
    d.evalLast (forms ++ rest) = d.evalLast forms >>= fun _ => d.evalLast rest := by
  rw [evalLast, List.foldlM_append]
  exact congrArg (d.evalLast forms >>= ·) (funext fun last => d.foldlM_eval_of_ne_nil h last)

/-- Forms behind others are evaluated with the bindings that those leave. -/
theorem evalProgram_append_of_ok {forms rest : List Form} {bindings after : Bindings} {v : Value}
    (hforms : d.evalProgram forms bindings = (.ok v, after)) (hrest : rest ≠ []) :
    d.evalProgram (forms ++ rest) bindings = d.evalProgram rest after := by
  rw [evalProgram] at hforms
  rw [evalProgram, evalProgram, d.evalLast_append forms hrest]
  cases hlast : d.evalLast forms bindings with
  | ok last middle =>
    rw [hlast] at hforms
    cases last with
    | none => cases hforms
    | some u =>
      cases hforms
      simp only [Bind.bind, EStateM.bind, hlast]
  | error e middle =>
    rw [hlast] at hforms
    cases hforms

/-- Forms behind others that fail are not evaluated. -/
theorem evalProgram_append_of_error {forms rest : List Form} {bindings after : Bindings} {e : Error}
    (hforms : d.evalProgram forms bindings = (.error e, after)) (hne : forms ≠ [])
    (hrest : rest ≠ []) : d.evalProgram (forms ++ rest) bindings = (.error e, after) := by
  rw [evalProgram] at hforms
  rw [evalProgram, d.evalLast_append forms hrest]
  cases hlast : d.evalLast forms bindings with
  | ok last middle =>
    rw [hlast] at hforms
    cases last with
    | none => exact absurd (d.evalLast_eq_ok_none hlast).1 hne
    | some v => cases hforms
  | error e middle =>
    rw [hlast] at hforms
    cases hforms
    simp only [Bind.bind, EStateM.bind, hlast]

/-! ### The stages before evaluation -/

variable {d} {a w b : String} {tokens : List Token} {forms rest : List Form} {e : Error}

/-- The forms of two sources with blanks between them are those of the first and then those of the
second. -/
theorem program_append (ha : d.program a = .ok forms) (hb : d.program b = .ok rest) (hw : w ≠ "")
    (hblank : ∀ c ∈ w.toList, isBlank c) : d.program (a ++ w ++ b) = .ok (forms ++ rest) := by
  obtain ⟨tokens, written, htokens, hwritten, hforms⟩ := program_eq_ok_iff.mp ha
  obtain ⟨tokens', written', htokens', hwritten', hrest⟩ := program_eq_ok_iff.mp hb
  have htokenize := tokenize_append (b := b) htokens hw hblank
  rw [htokens'] at htokenize
  refine program_eq_ok_iff.mpr
    ⟨_, _, htokenize, Form.ofTokens_append_shift _ hwritten hwritten', ?_⟩
  · rw [expandAll] at hforms hrest ⊢
    rw [expandEach_append, hforms, hrest]
    rfl

/-- A fault before evaluation is found behind another source, too. -/
theorem program_append_error (ha : d.program a = .ok forms) (hb : d.program b = .error e)
    (hw : w ≠ "") (hblank : ∀ c ∈ w.toList, isBlank c) :
    ∃ e', d.program (a ++ w ++ b) = .error e' ∧ e.IsShifted (byteLength (a ++ w).toList) e' := by
  obtain ⟨tokens, written, htokens, hwritten, hforms⟩ := program_eq_ok_iff.mp ha
  have htokenize := tokenize_append (b := b) htokens hw hblank
  rcases program_eq_error_iff.mp hb with ⟨fault, htokens', rfl⟩ | ⟨tokens', fault, htokens',
    hfault, rfl⟩ | ⟨tokens', written', fault, htokens', hwritten', hfault, rfl⟩
  · rw [htokens'] at htokenize
    obtain ⟨start, rfl⟩ := exists_of_tokenize_eq_error htokens'
    exact ⟨_, program_eq_error_iff.mpr (.inl ⟨_, htokenize, rfl⟩), rfl, rfl, rfl⟩
  · rw [htokens'] at htokenize
    obtain ⟨fault', hfault', halike⟩ := Form.ofTokens_append_shift_error _ hwritten hfault
    exact ⟨_, program_eq_error_iff.mpr (.inr (.inl ⟨_, fault', htokenize, hfault', rfl⟩)), halike⟩
  · rw [htokens'] at htokenize
    refine ⟨.expansion fault, program_eq_error_iff.mpr (.inr (.inr ⟨_, _, fault, htokenize,
      Form.ofTokens_append_shift _ hwritten hwritten', ?_, rfl⟩)), rfl⟩
    rw [expandAll] at hforms hfault ⊢
    rw [expandEach_append, hforms, hfault]
    rfl

end Dialect

/-! ### Runs -/

namespace Environment

variable {env : Environment} {a w b : String}

/-- Whether a source **reaches evaluation**: no stage before it fails, and there is a form to
evaluate. -/
def reachesEvaluation (env : Environment) (source : String) : Bool :=
  match env.toDialect.program source with
  | .ok forms => !forms.isEmpty
  | .error _ => false

theorem reachesEvaluation_iff {source : String} :
    env.reachesEvaluation source ↔ ∃ forms, env.toDialect.program source = .ok forms ∧ forms ≠ [] := by
  rw [reachesEvaluation]
  cases env.toDialect.program source <;> simp

/-- **Two programs, one after the other.** Let a source reach evaluation, and let blanks and then
another source follow it. If that one reaches evaluation, too, then running both at once is the
same as running the second with what the first leaves, if the first succeeds, and the same as
running the first alone, if it fails. If the second one fails before evaluation, then running both
at once fails with the same fault, found behind the first source and the blanks, and changes
nothing. -/
theorem run_append (ha : env.reachesEvaluation a) (hw : w ≠ "")
    (hblank : ∀ c ∈ w.toList, isBlank c) :
    (env.reachesEvaluation b →
      (∀ v after, env.run a = (.ok v, after) → env.run (a ++ w ++ b) = after.run b) ∧
      ∀ e after, env.run a = (.error e, after) → env.run (a ++ w ++ b) = (.error e, after)) ∧
    ∀ e, env.toDialect.program b = .error e →
      ∃ e', env.run (a ++ w ++ b) = (.error e', env) ∧
        e.IsShifted (byteLength (a ++ w).toList) e' := by
  obtain ⟨forms, hforms, hne⟩ := reachesEvaluation_iff.mp ha
  refine ⟨fun hb => ?_, fun e he => ?_⟩
  · obtain ⟨rest, hrest, hrestne⟩ := reachesEvaluation_iff.mp hb
    have hboth := Dialect.program_append hforms hrest hw hblank
    rw [run_of_program_eq_ok env hforms, run_of_program_eq_ok env hboth]
    refine ⟨fun v after h => ?_, fun e after h => ?_⟩
    · obtain ⟨hv, rfl⟩ := Prod.mk.inj h
      rw [env.toDialect.evalProgram_append_of_ok (Prod.ext hv rfl) hrestne]
      exact (run_of_program_eq_ok
        ⟨env.toDialect, (env.toDialect.evalProgram forms env.bindings).2⟩ hrest).symm
    · obtain ⟨he, rfl⟩ := Prod.mk.inj h
      rw [env.toDialect.evalProgram_append_of_error (Prod.ext he rfl) hne hrestne]
  · obtain ⟨e', he', hshifted⟩ := Dialect.program_append_error hforms he hw hblank
    exact ⟨e', run_of_program_eq_error he', hshifted⟩

/-- A definition is seen by what follows it, and is not made if what follows it cannot be cut into
tokens: the open string is found behind the twelve bytes of the definition and one of the blank. -/
theorem run_append_definition :
    (standard.run "(def é 'x')").1 = .ok (.string "'x'") ∧
      standard.run ("(def é 'x')" ++ "\n" ++ "(+ é 'y')") =
        (standard.run "(def é 'x')").2.run "(+ é 'y')" ∧
      ((standard.run "(def é 'x')").2.run "(+ é 'y')").1 = .ok (.string "\"xy\"") ∧
      ∃ e, standard.run ("(def é 'x')" ++ "\n" ++ "'") = (.error (.lex e), standard) ∧
        e.offset = 13 := by
  have hdefinition : standard.reachesEvaluation "(def é 'x')" := by decide +kernel
  have hsum : standard.reachesEvaluation "(+ é 'y')" := by decide +kernel
  have hopen : standard.toDialect.program "'" = .error (.lex (.unterminatedString "'" 0)) := rfl
  have hne : "\n" ≠ "" := by decide
  have hblank : ∀ c ∈ "\n".toList, isBlank c := by
    intro c hc
    obtain rfl : c = '\n' := by simpa using hc
    decide
  have hvalue : (standard.run "(def é 'x')").1 = .ok (.string "'x'") :=
    eq_ok_string (by decide +kernel)
  refine ⟨hvalue, ?_, eq_ok_string (by decide +kernel), ?_⟩
  · have hboth := ((run_append hdefinition hne hblank).1 hsum).1
    cases hfirst : standard.run "(def é 'x')" with
    | mk result after =>
      rw [hfirst] at hvalue
      obtain rfl : result = .ok (.string "'x'") := hvalue
      exact hboth _ _ hfirst
  · obtain ⟨e', hrun, hshifted⟩ := (run_append hdefinition hne hblank).2 _ hopen
    cases e' with
    | lex e => exact ⟨e, hrun, hshifted.2.2⟩
    | _ => exact hshifted.elim

end Environment

end ListLanguage
