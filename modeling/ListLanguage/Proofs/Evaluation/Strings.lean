import ListLanguage.Proofs.Evaluation.Invariant
import ListLanguage.Proofs.Value.Nesting

/-!
# The strings in values

A property of strings is had by the strings in a value, wherever they lie in it. Evaluation makes new
strings only by joining, so a property that joining does not lose is closed in a dialect, if the
operations of the host do not lose it (`Dialect.isClosed_stringsAre`).
-/

namespace ListLanguage

open Text

namespace Value

variable {S : String → Prop} {v : Value} {elements : List Value}

/-- The strings that lie in a value have a property. -/
def StringsAre (S : String → Prop) (v : Value) : Prop :=
  ∀ stored, string stored ∈ v.leaves → S stored

theorem stringsAre_string_iff {stored : String} : (string stored).StringsAre S ↔ S stored := by
  simp [StringsAre, leaves]

theorem stringsAre_list_iff : (list elements).StringsAre S ↔ ∀ v ∈ elements, v.StringsAre S := by
  simp only [StringsAre, leaves_list, List.mem_flatMap]
  constructor
  · exact fun h v hv stored hstored => h stored ⟨v, hv, hstored⟩
  · rintro h stored ⟨v, hv, hstored⟩
    exact h v hv stored hstored

theorem stringsAre_number (x : Float) : (number x).StringsAre S := by
  simp [StringsAre, leaves]

theorem stringsAre_callable : callable.StringsAre S := by
  simp [StringsAre, leaves]

end Value

open Value

/-- What joining does not lose, no operation of the language loses. -/
theorem Builtin.Result.stringsAre {S : String → Prop}
    (hjoin : ∀ stored : List String, (∀ s ∈ stored, S s) →
      S (enquote (String.join (stored.map unquote))))
    {args : List Value} {v : Value} (h : Result args v) (hargs : ∀ v ∈ args, v.StringsAre S) :
    v.StringsAre S := by
  cases h with
  | number x => exact stringsAre_number x
  | joined heq =>
    refine stringsAre_string_iff.mpr (hjoin _ fun s hs => ?_)
    exact stringsAre_string_iff.mp (hargs (.string s) (heq ▸ List.mem_map_of_mem hs))
  | element heq hv =>
    exact stringsAre_list_iff.mp (hargs _ (heq ▸ List.mem_singleton_self _)) v hv
  | sublist heq hpart =>
    have helements := stringsAre_list_iff.mp (hargs _ (heq ▸ List.mem_singleton_self _))
    exact stringsAre_list_iff.mpr fun v hv => helements v (hpart hv)

/-- What joining and the host do not lose is closed. -/
theorem Dialect.isClosed_stringsAre {d : Dialect} {S : String → Prop} {E : EvalError → Prop}
    (hjoin : ∀ stored : List String, (∀ s ∈ stored, S s) →
      S (enquote (String.join (stored.map unquote))))
    (hunbound : ∀ name, E (.unboundSymbol name))
    (hbuiltin : ∀ (op : Builtin) args e, op.call args = .error e → E e)
    (hhost : ∀ name operation, d.resolve? name = some operation →
      operation.Takes (StringsAre S) (StringsAre S) E) : d.IsClosed (StringsAre S) E where
  list _ := stringsAre_list_iff.mpr
  builtin op args hargs := by
    cases hresult : op.call args with
    | ok v => exact (Builtin.call_eq_ok hresult).stringsAre hjoin hargs
    | error e => exact hbuiltin op args e hresult
  host := hhost
  number := stringsAre_number
  callable := stringsAre_callable
  unbound := hunbound

end ListLanguage
