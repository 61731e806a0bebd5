import ListLanguage.Form

/-!
# Nesting of forms

Facts about forms are proved by **induction on the nesting**: a fact that holds of a list
whenever it holds of all its elements, and that holds of everything else, holds of every form
(`Form.nestingInduction`). The functions that run over forms come in pairs, one for a form and
one for a sequence of forms; the second of a pair is the first one mapped over the sequence.

The **depth** of a form counts the lists that lie inside one another: none in an atom, and one
more in a list than in its deepest element. The **leaves** of a form are what lies in it and is no
list; its **subforms** are the form itself and all that lies in it.
-/

namespace ListLanguage

namespace Form

/-- A fact that passes from the elements to the list, and holds of what is no list, holds of
every form. -/
@[elab_as_elim]
theorem nestingInduction {motive : Form → Prop} (number : ∀ x, motive (.number x))
    (string : ∀ stored, motive (.string stored)) (symbol : ∀ name, motive (.symbol name))
    (list : ∀ elements, (∀ form ∈ elements, motive form) → motive (.list elements))
    (assign : ∀ name, motive (.assign name)) (form : Form) : motive form := by
  refine Form.rec (motive_2 := fun elements => ∀ form ∈ elements, motive form) number string
    symbol list assign ?_ ?_ form
  · intro form h
    exact absurd h List.not_mem_nil
  · intro head tail hhead htail form h
    rcases List.mem_cons.mp h with rfl | h
    · exact hhead
    · exact htail form h

mutual

/-- How many lists lie inside one another. -/
def depth : Form → Nat
  | list elements => depthAll elements + 1
  | _ => 0

/-- The depth of the deepest of some forms. -/
def depthAll : List Form → Nat
  | [] => 0
  | form :: forms => max form.depth (depthAll forms)

end

@[simp]
theorem depth_number (x : Float) : (number x).depth = 0 := by
  simp [depth]

@[simp]
theorem depth_string (stored : String) : (string stored).depth = 0 := by
  simp [depth]

@[simp]
theorem depth_symbol (name : String) : (symbol name).depth = 0 := by
  simp [depth]

@[simp]
theorem depth_assign (name : String) : (assign name).depth = 0 := by
  simp [depth]

@[simp]
theorem depth_list (elements : List Form) : (list elements).depth = depthAll elements + 1 := by
  rw [depth]

/-- Some forms lie within a depth when each of them does. -/
theorem depthAll_le_iff {forms : List Form} {n : Nat} :
    depthAll forms ≤ n ↔ ∀ form ∈ forms, form.depth ≤ n := by
  induction forms with
  | nil => simp [depthAll]
  | cons form forms ih => rw [depthAll, Nat.max_le, ih, List.forall_mem_cons]

/-- What lies in a list is less deep than the list. -/
theorem depth_lt_of_mem {elements : List Form} {form : Form} (h : form ∈ elements) :
    form.depth < (list elements).depth := by
  rw [depth_list]
  exact Nat.lt_succ_of_le (depthAll_le_iff.mp (Nat.le_refl _) form h)

theorem depthAll_map_of_forall {f : Form → Form} {forms : List Form}
    (h : ∀ form ∈ forms, (f form).depth = form.depth) :
    depthAll (forms.map f) = depthAll forms := by
  induction forms with
  | nil => rfl
  | cons form forms ih =>
    rw [List.map_cons, depthAll, depthAll, h form List.mem_cons_self,
      ih fun other hother => h other (List.mem_cons_of_mem form hother)]

mutual

/-- What lies in a form and is no list, from left to right. -/
def leaves : Form → List Form
  | list elements => leavesAll elements
  | form => [form]

/-- What lies in some forms and is no list. -/
def leavesAll : List Form → List Form
  | [] => []
  | form :: forms => form.leaves ++ leavesAll forms

end

@[simp]
theorem leavesAll_eq_flatMap (forms : List Form) : leavesAll forms = forms.flatMap leaves := by
  induction forms with
  | nil => rfl
  | cons form forms ih => simp [leavesAll, ih]

@[simp]
theorem leaves_list (elements : List Form) : (list elements).leaves = elements.flatMap leaves := by
  rw [leaves, leavesAll_eq_flatMap]

/-- The leaves of an element are leaves of the list. -/
theorem mem_leaves_list {elements : List Form} {form leaf : Form} (hform : form ∈ elements)
    (hleaf : leaf ∈ form.leaves) : leaf ∈ (list elements).leaves := by
  rw [leaves_list]
  exact List.mem_flatMap.mpr ⟨form, hform, hleaf⟩

/-- What is no list has no leaf but itself. -/
theorem leaves_of_depth_eq_zero {form : Form} (h : form.depth = 0) : form.leaves = [form] := by
  cases form with
  | list elements => simp at h
  | _ => rw [leaves]; simp

mutual

/-- A form and all that lies in it. -/
def subforms : Form → List Form
  | list elements => list elements :: subformsAll elements
  | form => [form]

/-- Some forms and all that lies in them. -/
def subformsAll : List Form → List Form
  | [] => []
  | form :: forms => form.subforms ++ subformsAll forms

end

@[simp]
theorem subformsAll_eq_flatMap (forms : List Form) :
    subformsAll forms = forms.flatMap subforms := by
  induction forms with
  | nil => rfl
  | cons form forms ih => simp [subformsAll, ih]

@[simp]
theorem subforms_list (elements : List Form) :
    (list elements).subforms = list elements :: elements.flatMap subforms := by
  rw [subforms, subformsAll_eq_flatMap]

theorem mem_subforms_self (form : Form) : form ∈ form.subforms := by
  cases form with
  | list elements => rw [subforms_list]; exact List.mem_cons_self
  | _ => simp [subforms]

/-- The subforms of an element are subforms of the list. -/
theorem mem_subforms_list {elements : List Form} {form sub : Form} (hform : form ∈ elements)
    (hsub : sub ∈ form.subforms) : sub ∈ (list elements).subforms := by
  rw [subforms_list]
  exact List.mem_cons_of_mem _ (List.mem_flatMap.mpr ⟨form, hform, hsub⟩)

/-- What is no list has no subforms but itself. -/
theorem subforms_of_depth_eq_zero {form : Form} (h : form.depth = 0) : form.subforms = [form] := by
  cases form with
  | list elements => simp at h
  | _ => rw [subforms]; simp

end Form

end ListLanguage
