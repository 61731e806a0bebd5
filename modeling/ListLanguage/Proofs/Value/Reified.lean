import ListLanguage.Proofs.Form.Printing
import ListLanguage.Proofs.Value.Nesting

/-!
# Values as forms

A value without operations in it can be taken for a form, of the same shape and with the same
leaves: the value is **reified**. Value and form are written alike (`print_reify`) and are equally
deep (`depth_reify`).

A value is **readable** if there is no operation in it, its numbers are finite, and its strings have
the shape that strings have in programs. The leaves of a readable value are words, so its text is
read as the reified value, in which every zero has become positive. That value equals the one
that was written (`IsReadable.reread_beq`).
-/

namespace ListLanguage

namespace Value

mutual

/-- The form of the same shape and with the same leaves as a value. The placeholder for an
operation stands in no program; it becomes the symbol that is written like it. -/
def reify : Value → Form
  | number x => .number x
  | string stored => .string stored
  | list elements => .list (reifyAll elements)
  | callable => .symbol callableText

/-- The forms of some values. -/
def reifyAll : List Value → List Form
  | [] => []
  | v :: vs => v.reify :: reifyAll vs

end

mutual

/-- The value as which the text of a value is read: the same one, with every zero positive. -/
def reread : Value → Value
  | number x => number (Number.reread x)
  | list elements => list (rereadAll elements)
  | v => v

/-- The values as which the texts of some values are read. -/
def rereadAll : List Value → List Value
  | [] => []
  | v :: vs => v.reread :: rereadAll vs

end

@[simp]
theorem reifyAll_eq_map (vs : List Value) : reifyAll vs = vs.map reify := by
  induction vs with
  | nil => rfl
  | cons v vs ih => simp [reifyAll, ih]

@[simp]
theorem reify_list (elements : List Value) : (list elements).reify = .list (elements.map reify) := by
  rw [reify, reifyAll_eq_map]

@[simp]
theorem rereadAll_eq_map (vs : List Value) : rereadAll vs = vs.map reread := by
  induction vs with
  | nil => rfl
  | cons v vs ih => simp [rereadAll, ih]

@[simp]
theorem reread_list (elements : List Value) :
    (list elements).reread = list (elements.map reread) := by
  rw [reread, rereadAll_eq_map]

/-- A value and its form are written alike. -/
theorem print_reify (v : Value) : v.reify.print = v.print := by
  induction v using nestingInduction with
  | number x => rfl
  | string stored => rfl
  | callable => rfl
  | list elements ih =>
    rw [reify_list, Form.print, Form.printAll_eq_map, print, printAll_eq_map, List.map_map]
    exact congrArg Text.bracketed (List.map_congr_left ih)

/-- A value and its form are equally deep. -/
theorem depth_reify (v : Value) : v.reify.depth = v.depth := by
  induction v using nestingInduction with
  | number x => simp [reify, depth]
  | string stored => simp [reify, depth]
  | callable => simp [reify, depth]
  | list elements ih =>
    have hall : ∀ n, Form.depthAll (elements.map reify) ≤ n ↔ depthAll elements ≤ n := by
      intro n
      rw [Form.depthAll_le_iff, depthAll_le_iff, List.forall_mem_map]
      exact forall₂_congr fun v hv => by rw [ih v hv]
    have heq := Nat.le_antisymm ((hall _).mpr (Nat.le_refl _)) ((hall _).mp (Nat.le_refl _))
    rw [reify_list, Form.depth_list, depth_list, heq]

/-- Reading again goes through to the form. -/
theorem reify_reread (v : Value) : v.reread.reify = v.reify.reread := by
  induction v using nestingInduction with
  | number x => simp [reify, reread]
  | string stored => simp [reify, reread]
  | callable => simp [reify, reread]
  | list elements ih =>
    rw [reread_list, reify_list, reify_list, Form.reread_list, List.map_map, List.map_map]
    exact congrArg Form.list (List.map_congr_left ih)

theorem depth_reread (v : Value) : v.reread.depth = v.depth := by
  rw [← depth_reify, reify_reread, Form.depth_reread, depth_reify]

theorem equalAll_map_of_forall {f : Value → Value} {vs : List Value}
    (h : ∀ v ∈ vs, (f v).equal v = true) : equalAll (vs.map f) vs = true := by
  induction vs with
  | nil => rfl
  | cons v vs ih =>
    rw [List.map_cons, equalAll, h v List.mem_cons_self,
      ih fun other hother => h other (List.mem_cons_of_mem v hother)]
    rfl

/-- A value whose text is source again: there is no operation in it, its numbers are finite, and
its strings have the shape of strings in programs. -/
structure IsReadable (v : Value) : Prop where
  callable_notMem : callable ∉ v.leaves
  isFinite : ∀ x, number x ∈ v.leaves → x.isFinite
  isString : ∀ stored, string stored ∈ v.leaves → Text.IsString stored.toList

namespace IsReadable

variable {v : Value}

/-- The elements of a readable list are readable. -/
theorem of_mem {elements : List Value} (h : (list elements).IsReadable) (hv : v ∈ elements) :
    v.IsReadable where
  callable_notMem hleaf := h.callable_notMem (mem_leaves_list hv hleaf)
  isFinite x hleaf := h.isFinite x (mem_leaves_list hv hleaf)
  isString stored hleaf := h.isString stored (mem_leaves_list hv hleaf)

/-- The leaves of a readable value are words. -/
theorem isWord (h : v.IsReadable) : ∀ leaf ∈ v.reify.leaves, leaf.IsWord := by
  induction v using nestingInduction with
  | number x =>
    intro leaf hleaf
    obtain rfl : leaf = .number x := by simpa [reify, Form.leaves] using hleaf
    exact h.isFinite x (by simp [leaves])
  | string stored =>
    intro leaf hleaf
    obtain rfl : leaf = .string stored := by simpa [reify, Form.leaves] using hleaf
    exact h.isString stored (by simp [leaves])
  | callable => exact absurd (by simp [leaves]) h.callable_notMem
  | list elements ih =>
    intro leaf hleaf
    rw [reify_list, Form.leaves_list, List.flatMap_map] at hleaf
    obtain ⟨v, hv, hleaf⟩ := List.mem_flatMap.mp hleaf
    exact ih v hv (h.of_mem hv) leaf hleaf

/-- There is no operation in what is read, either. -/
theorem callable_notMem_reread (h : v.IsReadable) : callable ∉ v.reread.leaves := by
  induction v using nestingInduction with
  | number x => simp [reread, leaves]
  | string stored => simp [reread, leaves]
  | callable => exact absurd (by simp [leaves]) h.callable_notMem
  | list elements ih =>
    intro hleaf
    rw [reread_list, leaves_list, List.flatMap_map] at hleaf
    obtain ⟨v, hv, hleaf⟩ := List.mem_flatMap.mp hleaf
    exact ih v hv (h.of_mem hv) hleaf

/-- What is read equals what was written. -/
theorem reread_beq (h : v.IsReadable) : (v.reread == v) = true := by
  change v.reread.equal v = true
  induction v using nestingInduction with
  | number x => simpa [reread, equal] using Number.reread_beq (h.isFinite x (by simp [leaves]))
  | string stored => simp [reread, equal]
  | callable => exact absurd (by simp [leaves]) h.callable_notMem
  | list elements ih =>
    rw [reread_list, equal]
    exact equalAll_map_of_forall fun v hv => ih v hv (h.of_mem hv)

end IsReadable

end Value

end ListLanguage
