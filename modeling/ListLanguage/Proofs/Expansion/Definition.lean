import ListLanguage.Expansion
import ListLanguage.Proofs.Except
import ListLanguage.Proofs.Form.Nesting

/-!
# Expanding definitions

A dialect **expands definitions** if `def` is its one expander. In such a dialect the outcome of an
expansion is told from the form alone. A list headed by `def` is **malformed** unless a symbol and
one form follow. An expansion succeeds exactly if the form keeps the limit and no list in it is
malformed, and then every definition has become an assignment (`expandAt_eq_ok_iff`); it fails with
the limit if the form is too deep, or with an error of `def` if a list is malformed
(`expandAt_eq_error`).

The elements of a list are expanded first, and yet a list may be called malformed as it is written:
expansion turns lists into lists and leaves everything else alone, so the head of the list and the
shape of what follows stay the same.
-/

namespace ListLanguage

namespace Form

/-- A list headed by `def` that does not go on with a symbol and one form. -/
def IsMalformed (elements : List Form) : Prop :=
  ∃ tail, elements = symbol "def" :: tail ∧ ∀ name form, tail ≠ [symbol name, form]

/-- A form in which no list is malformed. -/
def IsWellDefined (form : Form) : Prop :=
  ∀ elements, list elements ∈ form.subforms → ¬IsMalformed elements

/-- The elements of a list, with an assignment in the place of a definition. -/
def rewriteDefinition : List Form → List Form
  | [symbol "def", symbol name, form] => [assign name, form]
  | elements => elements

/-- A list with another head stays as it is. -/
theorem rewriteDefinition_of_ne {elements : List Form}
    (hhead : ∀ tail, elements ≠ symbol "def" :: tail) : rewriteDefinition elements = elements := by
  unfold rewriteDefinition
  split
  · exact absurd rfl (hhead _)
  · rfl

mutual

/-- The form with an assignment in the place of each definition. -/
def assigned : Form → Form
  | list elements => list (rewriteDefinition (assignedAll elements))
  | form => form

/-- Some forms with an assignment in the place of each definition. -/
def assignedAll : List Form → List Form
  | [] => []
  | form :: forms => form.assigned :: assignedAll forms

end

@[simp]
theorem assignedAll_eq_map (forms : List Form) : assignedAll forms = forms.map assigned := by
  induction forms with
  | nil => rfl
  | cons form forms ih => simp [assignedAll, ih]

theorem assigned_list (elements : List Form) :
    (list elements).assigned = list (rewriteDefinition (elements.map assigned)) := by
  rw [assigned, assignedAll_eq_map]

/-- What is no list stays as it is. -/
theorem assigned_of_depth_eq_zero {form : Form} (h : form.depth = 0) : form.assigned = form := by
  cases form with
  | list elements => simp at h
  | _ => rw [assigned]; simp

/-- A symbol stays the symbol that it is, and nothing else becomes one. -/
theorem assigned_eq_symbol_iff {form : Form} {name : String} :
    form.assigned = symbol name ↔ form = symbol name := by
  cases form with
  | list elements => simp [assigned_list]
  | _ => rw [assigned_of_depth_eq_zero (by simp)]

/-- Once its elements are expanded, a list is rewritten if it is a definition as it is written. -/
theorem rewriteDefinition_map_assigned (elements : List Form) :
    (∃ name form, elements = [symbol "def", symbol name, form] ∧
        rewriteDefinition (elements.map assigned) = [assign name, form.assigned]) ∨
      rewriteDefinition (elements.map assigned) = elements.map assigned := by
  generalize hexpanded : elements.map assigned = expanded
  unfold rewriteDefinition
  split
  · rename_i name form
    obtain ⟨head, rest, rfl, hhead, hrest⟩ := List.map_eq_cons_iff.mp hexpanded
    obtain ⟨first, rest, rfl, hfirst, hrest⟩ := List.map_eq_cons_iff.mp hrest
    obtain ⟨second, rfl, rfl⟩ := List.map_eq_singleton_iff.mp hrest
    refine .inl ⟨name, second, ?_, rfl⟩
    rw [assigned_eq_symbol_iff.mp hhead, assigned_eq_symbol_iff.mp hfirst]
  · exact .inr rfl

theorem isWellDefined_list_iff {elements : List Form} :
    (list elements).IsWellDefined ↔
      ¬IsMalformed elements ∧ ∀ form ∈ elements, form.IsWellDefined := by
  simp only [IsWellDefined, subforms_list, List.mem_cons, list.injEq, List.mem_flatMap]
  constructor
  · intro h
    exact ⟨h elements (.inl rfl), fun form hform others hothers =>
      h others (.inr ⟨form, hform, hothers⟩)⟩
  · rintro ⟨hself, hall⟩ others (rfl | ⟨form, hform, hothers⟩)
    · exact hself
    · exact hall form hform others hothers

theorem isWellDefined_of_depth_eq_zero {form : Form} (h : form.depth = 0) : form.IsWellDefined := by
  intro elements hmem
  rw [subforms_of_depth_eq_zero h, List.mem_singleton] at hmem
  subst hmem
  simp at h

/-- Expanding its elements does not make a list malformed, or well formed. -/
theorem isMalformed_map_assigned_iff {elements : List Form} :
    IsMalformed (elements.map assigned) ↔ IsMalformed elements := by
  have htail : ∀ tail : List Form, (∃ name form, tail.map assigned = [symbol name, form]) ↔
      ∃ name form, tail = [symbol name, form] := by
    intro tail
    constructor
    · rintro ⟨name, form, htail⟩
      obtain ⟨first, rest, rfl, hfirst, hrest⟩ := List.map_eq_cons_iff.mp htail
      obtain ⟨second, rfl, -⟩ := List.map_eq_singleton_iff.mp hrest
      exact ⟨name, second, by rw [assigned_eq_symbol_iff.mp hfirst]⟩
    · rintro ⟨name, form, rfl⟩
      exact ⟨name, form.assigned, by simp [assigned_eq_symbol_iff.mpr]⟩
  constructor
  · rintro ⟨tail, heq, hne⟩
    obtain ⟨head, rest, rfl, hhead, rfl⟩ := List.map_eq_cons_iff.mp heq
    refine ⟨rest, by rw [assigned_eq_symbol_iff.mp hhead], fun name form hrest => ?_⟩
    obtain ⟨name', form', hmap⟩ := (htail rest).mpr ⟨name, form, hrest⟩
    exact hne name' form' hmap
  · rintro ⟨tail, rfl, hne⟩
    refine ⟨tail.map assigned, by simp [assigned_eq_symbol_iff.mpr], fun name form hmap => ?_⟩
    obtain ⟨name', form', hrest⟩ := (htail tail).mp ⟨name, form, hmap⟩
    exact hne name' form' hrest

end Form

/-- An error that `def` raises at a malformed list. -/
def ExpansionError.IsOfDefinition (e : ExpansionError) : Prop :=
  e.name = "def" ∧ ((∃ got, got ≠ 2 ∧ e.kind = .arityMismatch 2 got) ∨ e.kind = .invalidShape)

/-- A definition has a symbol and one form, or else it is in error. -/
theorem defExpander_eq_ok_iff {tail out : List Form} :
    defExpander tail = .ok out ↔
      ∃ name form, tail = [.symbol name, form] ∧ out = [.assign name, form] := by
  unfold defExpander
  split
  · simp [eq_comm]
  · rename_i other form hother
    simp only [reduceCtorEq, false_iff]
    rintro ⟨name, form', htail, -⟩
    exact hother name (List.cons.inj htail).1
  · rename_i hsymbol hother
    simp only [reduceCtorEq, false_iff]
    rintro ⟨name, form, htail, -⟩
    exact hsymbol name form htail

theorem isOfDefinition_of_defExpander_eq_error {tail : List Form} {e : ExpansionError}
    (h : defExpander tail = .error e) : e.IsOfDefinition := by
  unfold defExpander at h
  split at h
  · cases h
  · cases h
    exact ⟨rfl, .inr rfl⟩
  · rename_i hsymbol hother
    cases h
    refine ⟨rfl, .inl ⟨tail.length, fun hlength => ?_, rfl⟩⟩
    obtain ⟨first, second, rfl⟩ := List.length_eq_two.mp hlength
    exact hother first second rfl

namespace Dialect

open Form

/-- Whether `def` is the one expander of a dialect. -/
def ExpandsDefinitions (d : Dialect) : Prop :=
  d.expanders = (∅ : Std.ExtTreeMap String Expander).insert "def" defExpander

variable {d : Dialect} {elements out : List Form} {form : Form} {depth : Nat} {e : ExpansionError}

theorem getElem?_expanders (h : d.ExpandsDefinitions) (name : String) :
    d.expanders[name]? = if "def" = name then some defExpander else none := by
  rw [h]
  simp [Std.ExtTreeMap.getElem?_insert]

/-- A list headed by `def` is expanded as a definition. -/
theorem expandHead_def (h : d.ExpandsDefinitions) (tail : List Form) :
    d.expandHead (.symbol "def" :: tail) = defExpander tail := by
  simp [expandHead, getElem?_expanders h]

/-- Any other list stays as it is. -/
theorem expandHead_of_ne (h : d.ExpandsDefinitions)
    (hhead : ∀ tail, elements ≠ .symbol "def" :: tail) : d.expandHead elements = .ok elements := by
  unfold expandHead
  split
  · rename_i name tail
    have hname : "def" ≠ name := by
      rintro rfl
      exact hhead tail rfl
    simp [getElem?_expanders h, hname]
  · rfl

theorem expandHead_eq_ok_iff (h : d.ExpandsDefinitions) :
    d.expandHead elements = .ok out ↔ ¬IsMalformed elements ∧ out = rewriteDefinition elements := by
  by_cases hhead : ∃ tail, elements = .symbol "def" :: tail
  · obtain ⟨tail, rfl⟩ := hhead
    rw [expandHead_def h, defExpander_eq_ok_iff]
    constructor
    · rintro ⟨name, form, rfl, rfl⟩
      refine ⟨?_, rfl⟩
      rintro ⟨tail, htail, hne⟩
      exact hne name form (List.cons.inj htail).2.symm
    · rintro ⟨hformed, rfl⟩
      simp only [IsMalformed, not_exists, not_and, not_forall, not_not] at hformed
      obtain ⟨name, form, rfl⟩ := hformed tail rfl
      exact ⟨name, form, rfl, rfl⟩
  · have hhead' : ∀ tail, elements ≠ .symbol "def" :: tail := fun tail htail => hhead ⟨tail, htail⟩
    rw [expandHead_of_ne h hhead', rewriteDefinition_of_ne hhead']
    have hformed : ¬IsMalformed elements := fun ⟨tail, htail, _⟩ => hhead ⟨tail, htail⟩
    simp [hformed, eq_comm]

theorem isOfDefinition_of_expandHead_eq_error (h : d.ExpandsDefinitions)
    (he : d.expandHead elements = .error e) : e.IsOfDefinition ∧ IsMalformed elements := by
  have hmalformed : IsMalformed elements := by
    by_contra hformed
    rw [(expandHead_eq_ok_iff h).mpr ⟨hformed, rfl⟩] at he
    cases he
  obtain ⟨tail, rfl, -⟩ := id hmalformed
  rw [expandHead_def h] at he
  exact ⟨isOfDefinition_of_defExpander_eq_error he, hmalformed⟩

/-! ### Whole forms -/

/-- Some forms are expanded when each of them is. -/
theorem expandEach_eq_ok_iff_of_forall {forms : List Form} {P : Form → Prop}
    (h : ∀ form ∈ forms, ∀ out, d.expandAt depth form = .ok out ↔ P form ∧ out = form.assigned) :
    d.expandEach depth forms = .ok out ↔ (∀ form ∈ forms, P form) ∧ out = forms.map assigned := by
  induction forms generalizing out with
  | nil => simp [expandEach, eq_comm]
  | cons form forms ih =>
    have hforms : ∀ out, d.expandEach depth forms = .ok out ↔
        (∀ form ∈ forms, P form) ∧ out = forms.map assigned :=
      fun out => ih fun f hf => h f (List.mem_cons_of_mem form hf)
    rw [expandEach, Except.bind_eq_ok_iff]
    simp only [Except.bind_eq_ok_iff, h form List.mem_cons_self, hforms]
    constructor
    · rintro ⟨first, ⟨hfirst, rfl⟩, rest, ⟨hrest, rfl⟩, hpure⟩
      exact ⟨List.forall_mem_cons.mpr ⟨hfirst, hrest⟩, (Except.ok.inj hpure).symm⟩
    · rintro ⟨hall, rfl⟩
      obtain ⟨hfirst, hrest⟩ := List.forall_mem_cons.mp hall
      exact ⟨_, ⟨hfirst, rfl⟩, _, ⟨hrest, rfl⟩, rfl⟩

/-- **When an expansion succeeds**, and what it makes. -/
theorem expandAt_eq_ok_iff (h : d.ExpandsDefinitions) {out : Form} (hdepth : depth ≤ d.limit) :
    d.expandAt depth form = .ok out ↔
      (depth + form.depth ≤ d.limit ∧ form.IsWellDefined) ∧ out = form.assigned := by
  induction form using nestingInduction generalizing depth out with
  | list elements ih =>
    rw [expandAt]
    split
    · rename_i hlimit
      rw [depth_list]
      simp only [reduceCtorEq, false_iff, not_and]
      omega
    · rename_i hlimit
      have heach : ∀ out, d.expandEach (depth + 1) elements = .ok out ↔
          (∀ form ∈ elements, depth + 1 + form.depth ≤ d.limit ∧ form.IsWellDefined) ∧
            out = elements.map assigned :=
        fun out => expandEach_eq_ok_iff_of_forall fun form hform out => ih form hform (by omega)
      simp only [Except.bind_eq_ok_iff, Except.map_eq_ok_iff, heach, expandHead_eq_ok_iff h]
      rw [depth_list, assigned_list, isWellDefined_list_iff]
      constructor
      · rintro ⟨_, ⟨hforms, rfl⟩, _, ⟨hformed, rfl⟩, rfl⟩
        rw [isMalformed_map_assigned_iff] at hformed
        have hdeep : depthAll elements ≤ d.limit - (depth + 1) := depthAll_le_iff.mpr
          fun form hform => Nat.le_sub_of_add_le' (hforms form hform).1
        exact ⟨⟨by omega, hformed, fun form hform => (hforms form hform).2⟩, rfl⟩
      · rintro ⟨⟨hdeep, hformed, hforms⟩, rfl⟩
        have hdeep' := depthAll_le_iff.mp (show depthAll elements ≤ d.limit - (depth + 1) by omega)
        refine ⟨_, ⟨fun form hform => ⟨?_, hforms form hform⟩, rfl⟩, _,
          ⟨isMalformed_map_assigned_iff.not.mpr hformed, rfl⟩, rfl⟩
        have := hdeep' form hform
        omega
  | _ =>
    rw [expandAt, assigned_of_depth_eq_zero (by simp)]
    · simp [hdepth, isWellDefined_of_depth_eq_zero, eq_comm]
    · simp

theorem exists_of_expandEach_eq_error {forms : List Form}
    (he : d.expandEach depth forms = .error e) :
    ∃ form ∈ forms, d.expandAt depth form = .error e := by
  induction forms with
  | nil => cases he
  | cons form forms ih =>
    rw [expandEach] at he
    rcases Except.bind_eq_error_iff.mp he with hform | ⟨first, -, he⟩
    · exact ⟨form, List.mem_cons_self, hform⟩
    · rcases Except.bind_eq_error_iff.mp he with hforms | ⟨rest, -, hpure⟩
      · obtain ⟨other, hother, hfail⟩ := ih hforms
        exact ⟨other, List.mem_cons_of_mem form hother, hfail⟩
      · cases hpure

/-- **Why an expansion fails**: the form is too deep, or a list in it is malformed. -/
theorem expandAt_eq_error (h : d.ExpandsDefinitions) (hdepth : depth ≤ d.limit)
    (he : d.expandAt depth form = .error e) :
    (e = .depthExceeded d.limit ∧ d.limit < depth + form.depth) ∨
      (e.IsOfDefinition ∧ ¬form.IsWellDefined) := by
  induction form using nestingInduction generalizing depth with
  | list elements ih =>
    rw [isWellDefined_list_iff]
    rw [expandAt] at he
    split at he
    · cases he
      rw [depth_list]
      exact .inl ⟨rfl, by omega⟩
    · rename_i hlimit
      have hnext : depth + 1 ≤ d.limit := by omega
      rcases Except.bind_eq_error_iff.mp he with hfail | ⟨expanded, hexpanded, hhead⟩
      · -- one of the elements fails, and what is wrong with it is wrong with the list
        obtain ⟨form, hform, hfail⟩ := exists_of_expandEach_eq_error hfail
        rcases ih form hform hnext hfail with ⟨rfl, hdeep⟩ | ⟨he, hformed⟩
        · have hlt := depth_lt_of_mem hform
          exact .inl ⟨rfl, by omega⟩
        · exact .inr ⟨he, fun hall => hformed (hall.2 form hform)⟩
      · -- the elements are expanded, and so the list itself is malformed
        obtain ⟨-, rfl⟩ := (expandEach_eq_ok_iff_of_forall fun form _ out =>
          expandAt_eq_ok_iff h hnext).mp hexpanded
        obtain ⟨he, hmalformed⟩ :=
          isOfDefinition_of_expandHead_eq_error h (Except.map_eq_error_iff.mp hhead)
        exact .inr ⟨he, fun hall => hall.1 (isMalformed_map_assigned_iff.mp hmalformed)⟩
  | _ =>
    rw [expandAt] at he
    · cases he
    · simp

variable {forms : List Form}

/-- When some forms can be expanded, and what is made of them. -/
theorem expandAll_eq_ok_iff (h : d.ExpandsDefinitions) :
    d.expandAll forms = .ok out ↔
      (∀ form ∈ forms, form.depth ≤ d.limit ∧ form.IsWellDefined) ∧ out = forms.map assigned := by
  rw [expandAll]
  refine expandEach_eq_ok_iff_of_forall fun form _ out => ?_
  rw [expandAt_eq_ok_iff h (Nat.zero_le _), Nat.zero_add]

/-- Why some forms cannot be expanded: one of them is too deep, or a list in one is malformed. -/
theorem expandAll_eq_error (h : d.ExpandsDefinitions) (he : d.expandAll forms = .error e) :
    (e = .depthExceeded d.limit ∧ ∃ form ∈ forms, d.limit < form.depth) ∨
      (e.IsOfDefinition ∧ ∃ form ∈ forms, ¬form.IsWellDefined) := by
  obtain ⟨form, hform, hfail⟩ := exists_of_expandEach_eq_error he
  rcases expandAt_eq_error h (Nat.zero_le _) hfail with ⟨rfl, hdeep⟩ | ⟨he, hformed⟩
  · exact .inl ⟨rfl, form, hform, by omega⟩
  · exact .inr ⟨he, form, hform, hformed⟩

end Dialect

end ListLanguage
