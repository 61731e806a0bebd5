import ListLanguage.Proofs.Evaluation.Outcome
import ListLanguage.Proofs.Value.Reified
import ListLanguage.Run

/-!
# Expanding and evaluating reified values

A reified value has no symbols in it. So no expander and no operation applies to any list in it,
whatever the environment offers: expansion leaves it as it is (`expandAt_reify`), and it evaluates
to the value, without a change to the bindings (`evalAt_reify`). Only the limit on nesting has to
allow it.
-/

namespace ListLanguage

open Value

namespace Value

/-- A reified value is no symbol and no assignment unless it is the placeholder for an
operation. -/
theorem exists_of_callable_notMem {v : Value} (h : callable ∉ v.leaves) :
    (∃ x, v = number x) ∨ (∃ stored, v = string stored) ∨ ∃ elements, v = list elements := by
  cases v with
  | number x => exact .inl ⟨x, rfl⟩
  | string stored => exact .inr (.inl ⟨stored, rfl⟩)
  | list elements => exact .inr (.inr ⟨elements, rfl⟩)
  | callable => exact absurd (by simp [leaves]) h

theorem callable_notMem_of_mem {elements : List Value} {v : Value} (hv : v ∈ elements)
    (h : callable ∉ (list elements).leaves) : callable ∉ v.leaves :=
  fun hleaf => h (mem_leaves_list hv hleaf)

/-- The elements of a list that fits in a depth fit in it one list further in. -/
theorem depth_le_of_mem {elements : List Value} {v : Value} {depth limit : Nat} (hv : v ∈ elements)
    (h : depth + (list elements).depth ≤ limit) : depth + 1 + v.depth ≤ limit := by
  have hle := depthAll_le_iff.mp (Nat.le_refl (depthAll elements)) v hv
  rw [depth_list] at h
  omega

end Value

namespace Dialect

variable (d : Dialect) {v : Value} {depth : Nat} {bindings : Bindings}

/-! ### Expansion -/

/-- Forms that expansion leaves as they are stay so one after another. -/
theorem expandEach_of_forall {forms : List Form}
    (h : ∀ form ∈ forms, d.expandAt depth form = .ok form) :
    d.expandEach depth forms = .ok forms := by
  induction forms with
  | nil => rfl
  | cons form forms ih =>
    rw [expandEach, h form List.mem_cons_self,
      ih fun other hother => h other (List.mem_cons_of_mem form hother)]
    rfl

/-- Nothing expands a list of reified values, since its head is no symbol. -/
theorem expandHead_reify {vs : List Value} (h : ∀ v ∈ vs, callable ∉ v.leaves) :
    d.expandHead (vs.map reify) = .ok (vs.map reify) := by
  cases vs with
  | nil => rfl
  | cons v vs =>
    rcases exists_of_callable_notMem (h v List.mem_cons_self) with
      ⟨x, rfl⟩ | ⟨stored, rfl⟩ | ⟨elements, rfl⟩ <;> rfl

/-- Expansion leaves a reified value as it is. -/
theorem expandAt_reify (h : callable ∉ v.leaves) (hlimit : depth + v.depth ≤ d.limit) :
    d.expandAt depth v.reify = .ok v.reify := by
  induction v using nestingInduction generalizing depth with
  | number x => rfl
  | string stored => rfl
  | callable => rfl
  | list elements ih =>
    have heach : d.expandEach (depth + 1) (elements.map reify) = .ok (elements.map reify) := by
      refine d.expandEach_of_forall fun form hform => ?_
      obtain ⟨v, hv, rfl⟩ := List.mem_map.mp hform
      exact ih v hv (callable_notMem_of_mem hv h) (depth_le_of_mem hv hlimit)
    have hhead := d.expandHead_reify fun v hv => callable_notMem_of_mem hv h
    rw [depth_list] at hlimit
    rw [reify_list, expandAt, if_neg (by omega), heach]
    change Form.list <$> d.expandHead (elements.map reify) = _
    rw [hhead]
    rfl

/-! ### Evaluation -/

/-- Nothing calls a reified value. -/
theorem callee?_reify (h : callable ∉ v.leaves) : d.callee? bindings v.reify = none := by
  rcases exists_of_callable_notMem h with ⟨x, rfl⟩ | ⟨stored, rfl⟩ | ⟨elements, rfl⟩ <;> rfl

/-- Reified values that evaluate to the values do so one after another. -/
theorem evalEach_reify {vs : List Value}
    (h : ∀ v ∈ vs, d.evalAt depth v.reify bindings = .ok v bindings) :
    d.evalEach depth (vs.map reify) bindings = .ok vs bindings := by
  induction vs with
  | nil => rfl
  | cons v vs ih =>
    have hvs := ih fun other hother => h other (List.mem_cons_of_mem v hother)
    rw [List.map_cons, evalEach]
    simp only [Bind.bind, EStateM.bind, h v List.mem_cons_self, hvs]
    rfl

/-- A reified value evaluates to the value and changes no binding. -/
theorem evalAt_reify (h : callable ∉ v.leaves) (hlimit : depth + v.depth ≤ d.limit) :
    d.evalAt depth v.reify bindings = .ok v bindings := by
  induction v using nestingInduction generalizing depth with
  | number x => rfl
  | string stored => rfl
  | callable => exact absurd (by simp [leaves]) h
  | list elements ih =>
    have hall : ∀ v ∈ elements, d.evalAt (depth + 1) v.reify bindings = .ok v bindings :=
      fun v hv => ih v hv (callable_notMem_of_mem hv h) (depth_le_of_mem hv hlimit)
    rw [depth_list] at hlimit
    rw [reify_list, evalAt, if_neg (by omega)]
    cases elements with
    | nil => rfl
    | cons v vs =>
      have hdata : d.callee? bindings v.reify = none :=
        d.callee?_reify (callable_notMem_of_mem List.mem_cons_self h)
      have heach := d.evalEach_reify hall
      rw [List.map_cons] at heach ⊢
      rw [d.evalList_of_callee?_eq_none hdata]
      simp only [Bind.bind, EStateM.bind, heach]
      rfl

end Dialect

end ListLanguage
