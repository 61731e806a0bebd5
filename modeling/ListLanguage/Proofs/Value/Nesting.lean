import ListLanguage.Value

/-!
# Nesting of values

Facts about values are proved by induction on the nesting, as those about forms are: a fact that
passes from the elements to the list, and holds of what is no list, holds of every value
(`Value.nestingInduction`). The **depth** of a value counts the lists that lie inside one another,
and its **leaves** are what lies in it and is no list.
-/

namespace ListLanguage

namespace Value

/-- A fact that passes from the elements to the list, and holds of what is no list, holds of
every value. -/
@[elab_as_elim]
theorem nestingInduction {motive : Value → Prop} (number : ∀ x, motive (.number x))
    (string : ∀ stored, motive (.string stored))
    (list : ∀ elements, (∀ v ∈ elements, motive v) → motive (.list elements))
    (callable : motive .callable) (v : Value) : motive v := by
  refine Value.rec (motive_2 := fun elements => ∀ v ∈ elements, motive v) number string list
    callable ?_ ?_ v
  · intro v h
    exact absurd h List.not_mem_nil
  · intro head tail hhead htail v h
    rcases List.mem_cons.mp h with rfl | h
    · exact hhead
    · exact htail v h

mutual

/-- How many lists lie inside one another. -/
def depth : Value → Nat
  | list elements => depthAll elements + 1
  | _ => 0

/-- The depth of the deepest of some values. -/
def depthAll : List Value → Nat
  | [] => 0
  | v :: vs => max v.depth (depthAll vs)

end

@[simp]
theorem depth_list (elements : List Value) : (list elements).depth = depthAll elements + 1 := by
  rw [depth]

/-- Some values lie within a depth when each of them does. -/
theorem depthAll_le_iff {vs : List Value} {n : Nat} :
    depthAll vs ≤ n ↔ ∀ v ∈ vs, v.depth ≤ n := by
  induction vs with
  | nil => simp [depthAll]
  | cons v vs ih => rw [depthAll, Nat.max_le, ih, List.forall_mem_cons]

mutual

/-- What lies in a value and is no list, from left to right. -/
def leaves : Value → List Value
  | list elements => leavesAll elements
  | v => [v]

/-- What lies in some values and is no list. -/
def leavesAll : List Value → List Value
  | [] => []
  | v :: vs => v.leaves ++ leavesAll vs

end

@[simp]
theorem leavesAll_eq_flatMap (vs : List Value) : leavesAll vs = vs.flatMap leaves := by
  induction vs with
  | nil => rfl
  | cons v vs ih => simp [leavesAll, ih]

@[simp]
theorem leaves_list (elements : List Value) : (list elements).leaves = elements.flatMap leaves := by
  rw [leaves, leavesAll_eq_flatMap]

/-- The leaves of an element are leaves of the list. -/
theorem mem_leaves_list {elements : List Value} {v leaf : Value} (hv : v ∈ elements)
    (hleaf : leaf ∈ v.leaves) : leaf ∈ (list elements).leaves := by
  rw [leaves_list]
  exact List.mem_flatMap.mpr ⟨v, hv, hleaf⟩

end Value

end ListLanguage
