import ListLanguage.Proofs.Evaluation.Reified
import ListLanguage.Proofs.Run.Stages

/-!
# Printed values read back

The text of a readable value is a program. It is read as the reified value, which expansion leaves
as it is and which evaluates to itself; so the run yields a value equal to the one that was
printed, in every environment whose limit allows the value's nesting, and changes nothing
(`exists_run_print_eq`).
-/

namespace ListLanguage

open Value

variable {v : Value}

namespace Dialect

variable (d : Dialect)

/-- The program that the text of a readable value is. -/
theorem program_print (h : v.IsReadable) (hlimit : v.depth ≤ d.limit) :
    d.program v.print = .ok [v.reread.reify] := by
  have hsource : Form.ofSource v.print false d.limit = .ok [v.reread.reify] := by
    have hwords : ∀ form ∈ [v.reify], ∀ leaf ∈ form.leaves, leaf.IsWord :=
      List.forall_mem_singleton.mpr h.isWord
    have hdepth : ∀ form ∈ [v.reify], form.depth ≤ d.limit := by
      rw [List.forall_mem_singleton, depth_reify]
      exact hlimit
    have hforms := Form.ofSource_intercalate_print hwords hdepth
    rwa [List.map_singleton, List.map_singleton, String.intercalate_singleton, print_reify,
      ← reify_reread] at hforms
  have hexpand : d.expandAt 0 v.reread.reify = .ok v.reread.reify := by
    refine d.expandAt_reify h.callable_notMem_reread ?_
    rw [Nat.zero_add, depth_reread]
    exact hlimit
  have hexpandAll : d.expandAll [v.reread.reify] = .ok [v.reread.reify] :=
    d.expandEach_of_forall (List.forall_mem_singleton.mpr hexpand)
  rw [program, hsource]
  change (d.expandAll [v.reread.reify]).mapError Error.expansion = _
  rw [hexpandAll]
  rfl

end Dialect

namespace Environment

/-- The run of the text of a readable value. -/
theorem run_print (env : Environment) (h : v.IsReadable) (hlimit : v.depth ≤ env.limit) :
    env.run v.print = (.ok v.reread, env) := by
  have hprogram := env.toDialect.program_print h hlimit
  have heval : env.toDialect.eval v.reread.reify env.bindings = .ok v.reread env.bindings := by
    refine env.toDialect.evalAt_reify h.callable_notMem_reread ?_
    rw [Nat.zero_add, depth_reread]
    exact hlimit
  have hresult := Dialect.evalProgram_singleton heval
  simp only [run, hprogram, hresult]

/-- **Printed values read back.** In every environment whose limit allows its nesting, the text of
a readable value is a program that yields an equal value and leaves the environment as it is. -/
theorem exists_run_print_eq (env : Environment) (h : v.IsReadable) (hlimit : v.depth ≤ env.limit) :
    ∃ u, env.run v.print = (.ok u, env) ∧ (u == v) = true :=
  ⟨v.reread, env.run_print h hlimit, h.reread_beq⟩

/-- A list headed by a negative zero, with a string that holds brackets and both quote marks, reads
back where the limit just allows it. -/
theorem exists_run_print_eq_mixed :
    ∃ u, (standard.setLimit 2).run
        (list [number (Number.ofRank true 0), string "'(\\'\" '", list []]).print =
          (.ok u, standard.setLimit 2) ∧
      (u == list [number (Number.ofRank true 0), string "'(\\'\" '", list []]) = true := by
  refine exists_run_print_eq (standard.setLimit 2) ⟨?_, ?_, ?_⟩ (by decide)
  · simp [leaves]
  · intro x hx
    obtain rfl : x = Number.ofRank true 0 := by simpa [leaves] using hx
    exact Number.isFinite_iff.mpr (by decide)
  · intro stored hstored
    obtain rfl : stored = "'(\\'\" '" := by simpa [leaves] using hstored
    refine ⟨'\'', [] ++ ['('] ++ ['\\'] ++ ['\''] ++ ['"'] ++ [' '], by decide, by decide, ?_,
      by decide⟩
    simp only [Text.isGuarded_concat, Text.isGuarded_nil]
    decide

end Environment

end ListLanguage
