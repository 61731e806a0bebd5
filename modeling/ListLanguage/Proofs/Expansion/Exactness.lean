import Mathlib.Data.List.Forall2
import ListLanguage.Proofs.Expansion.Definition
import ListLanguage.Run

/-!
# The exact meaning of a definition

Where `def` is the one expander, expansion is told from the form alone. It makes of a form the same
form with an assignment in the place of each definition, and nothing else is changed; this is said
from the outermost list inwards (`Form.ExpandsTo`), while expansion works from the innermost lists
outwards. The two agree because the parts of a list that make it a definition, the symbol `def` and
the symbol behind it, are the same before and after (`Form.expandsTo_iff`).

A form is **expanded** if no list in it is headed by `def`. What expansion makes is expanded
(`Form.isExpanded_assigned`), and an expanded form is what expansion makes of it
(`Form.IsExpanded.expandsTo_self`), so expanding a second time changes nothing.
-/

namespace ListLanguage

namespace Form

variable {elements outs : List Form} {form out : Form} {name : String}

/-! ### Definitions and other lists -/

/-- A definition is as well defined as the form in it. -/
theorem isWellDefined_definition_iff :
    (list [symbol "def", symbol name, form]).IsWellDefined ↔ form.IsWellDefined := by
  have hformed : ¬IsMalformed [symbol "def", symbol name, form] := by
    rintro ⟨tail, htail, hne⟩
    exact hne name form (List.cons.inj htail).2.symm
  rw [isWellDefined_list_iff]
  simp [hformed, isWellDefined_of_depth_eq_zero]

/-- A list that is not headed by `def` is as well defined as its elements. -/
theorem isWellDefined_list_iff_of_ne (hhead : ∀ tail, elements ≠ symbol "def" :: tail) :
    (list elements).IsWellDefined ↔ ∀ form ∈ elements, form.IsWellDefined := by
  have hformed : ¬IsMalformed elements := fun ⟨tail, htail, _⟩ => hhead tail htail
  rw [isWellDefined_list_iff]
  exact and_iff_right hformed

/-- A well defined list that is headed by `def` is a definition. -/
theorem exists_eq_of_isWellDefined {tail : List Form}
    (h : (list (symbol "def" :: tail)).IsWellDefined) : ∃ name form, tail = [symbol name, form] := by
  by_contra hne
  simp only [not_exists] at hne
  exact (isWellDefined_list_iff.mp h).1 ⟨tail, rfl, hne⟩

theorem assigned_definition :
    (list [symbol "def", symbol name, form]).assigned = list [assign name, form.assigned] := by
  rw [assigned_list]
  simp [assigned_of_depth_eq_zero, rewriteDefinition]

/-- Expanding its elements gives a list no other head `def`. -/
theorem map_assigned_ne (hhead : ∀ tail, elements ≠ symbol "def" :: tail) (tail : List Form) :
    elements.map assigned ≠ symbol "def" :: tail := by
  intro htail
  obtain ⟨head, rest, rfl, hassigned, -⟩ := List.map_eq_cons_iff.mp htail
  exact hhead rest (by rw [assigned_eq_symbol_iff.mp hassigned])

theorem assigned_list_of_ne (hhead : ∀ tail, elements ≠ symbol "def" :: tail) :
    (list elements).assigned = list (elements.map assigned) := by
  rw [assigned_list, rewriteDefinition_of_ne (map_assigned_ne hhead)]

/-! ### What a form expands to -/

/-- `form.ExpandsTo out` says that `out` is `form` with an assignment in the place of each definition:
a definition becomes the assignment of the name with the form in it, which is expanded in its turn; any
other list keeps its place, and its elements are expanded; and what is no list stays as it is. A list
that is headed by `def` and is no definition expands to nothing. -/
inductive ExpandsTo : Form → Form → Prop where
  | atom {form : Form} : form.depth = 0 → ExpandsTo form form
  | definition (name : String) {form out : Form} : ExpandsTo form out →
    ExpandsTo (list [symbol "def", symbol name, form]) (list [assign name, out])
  | list {elements outs : List Form} : (∀ tail, elements ≠ symbol "def" :: tail) →
    List.Forall₂ ExpandsTo elements outs → ExpandsTo (list elements) (list outs)

/-- A relation that is a function on some elements is a function on the list of them. -/
theorem forall₂_iff_of_forall {R : Form → Form → Prop} {P : Form → Prop} {f : Form → Form}
    (h : ∀ form ∈ elements, ∀ out, R form out ↔ P form ∧ out = f form) :
    List.Forall₂ R elements outs ↔ (∀ form ∈ elements, P form) ∧ outs = elements.map f := by
  induction elements generalizing outs with
  | nil => simp
  | cons form forms ih =>
    have hforms : ∀ outs, List.Forall₂ R forms outs ↔ (∀ form ∈ forms, P form) ∧ outs = forms.map f :=
      fun _ => ih fun f hf => h f (List.mem_cons_of_mem form hf)
    rw [List.forall₂_cons_left_iff, List.forall_mem_cons, List.map_cons]
    simp only [h form List.mem_cons_self, hforms]
    constructor
    · rintro ⟨_, _, ⟨hform, rfl⟩, ⟨hrest, rfl⟩, rfl⟩
      exact ⟨⟨hform, hrest⟩, rfl⟩
    · rintro ⟨⟨hform, hrest⟩, rfl⟩
      exact ⟨_, _, ⟨hform, rfl⟩, ⟨hrest, rfl⟩, rfl⟩

theorem expandsTo_iff_eq_of_depth_eq_zero (h : form.depth = 0) : form.ExpandsTo out ↔ out = form := by
  constructor
  · intro hexpands
    cases hexpands with
    | atom => rfl
    | definition => simp at h
    | list => simp at h
  · rintro rfl
    exact .atom h

/-- A list that is headed by `def` expands to something only if it is a definition. -/
theorem expandsTo_def_iff {tail : List Form} :
    (list (symbol "def" :: tail)).ExpandsTo out ↔ ∃ name form inner, tail = [symbol name, form] ∧
      form.ExpandsTo inner ∧ out = list [assign name, inner] := by
  constructor
  · intro h
    cases h with
    | atom hdepth => simp at hdepth
    | definition name hform => exact ⟨name, _, _, rfl, hform, rfl⟩
    | list hhead => exact absurd rfl (hhead tail)
  · rintro ⟨name, form, inner, rfl, hform, rfl⟩
    exact .definition name hform

/-- Any other list expands to the list of what its elements expand to. -/
theorem expandsTo_list_iff_of_ne (hhead : ∀ tail, elements ≠ symbol "def" :: tail) :
    (list elements).ExpandsTo out ↔
      ∃ outs, List.Forall₂ ExpandsTo elements outs ∧ out = list outs := by
  constructor
  · intro h
    cases h with
    | atom hdepth => simp at hdepth
    | definition => exact absurd rfl (hhead _)
    | list _ houts => exact ⟨_, houts, rfl⟩
  · rintro ⟨outs, houts, rfl⟩
    exact .list hhead houts

/-- A form expands to something exactly if it is well defined, and then to one form only. -/
theorem expandsTo_iff : form.ExpandsTo out ↔ form.IsWellDefined ∧ out = form.assigned := by
  induction form using nestingInduction generalizing out with
  | list elements ih =>
    -- the head decides alone, since expansion makes no other form into the symbol `def`
    by_cases hhead : ∃ tail, elements = symbol "def" :: tail
    · obtain ⟨tail, rfl⟩ := hhead
      rw [expandsTo_def_iff]
      constructor
      · rintro ⟨name, form, inner, rfl, hform, rfl⟩
        obtain ⟨hwell, rfl⟩ := (ih form (by simp)).mp hform
        exact ⟨isWellDefined_definition_iff.mpr hwell, by rw [assigned_definition]⟩
      · rintro ⟨hwell, rfl⟩
        obtain ⟨name, form, rfl⟩ := exists_eq_of_isWellDefined hwell
        have hform := (ih form (by simp)).mpr ⟨isWellDefined_definition_iff.mp hwell, rfl⟩
        exact ⟨name, form, _, rfl, hform, assigned_definition⟩
    · rw [not_exists] at hhead
      have houts : ∀ outs, List.Forall₂ ExpandsTo elements outs ↔
          (∀ form ∈ elements, form.IsWellDefined) ∧ outs = elements.map assigned :=
        fun outs => forall₂_iff_of_forall fun form hform out => ih form hform
      rw [expandsTo_list_iff_of_ne hhead, isWellDefined_list_iff_of_ne hhead,
        assigned_list_of_ne hhead]
      simp only [houts, and_assoc, exists_and_left, exists_eq_left]
  | _ =>
    rw [expandsTo_iff_eq_of_depth_eq_zero (by simp), assigned_of_depth_eq_zero (by simp)]
    exact (and_iff_right (isWellDefined_of_depth_eq_zero (by simp))).symm

/-! ### Expanded forms -/

/-- A form is **expanded** if no list in it is headed by `def`. -/
def IsExpanded (form : Form) : Prop :=
  ∀ tail, list (symbol "def" :: tail) ∉ form.subforms

theorem isExpanded_of_depth_eq_zero (h : form.depth = 0) : form.IsExpanded := by
  intro tail hmem
  rw [subforms_of_depth_eq_zero h, List.mem_singleton] at hmem
  subst hmem
  simp at h

theorem isExpanded_list_iff :
    (list elements).IsExpanded ↔
      (∀ tail, elements ≠ symbol "def" :: tail) ∧ ∀ form ∈ elements, form.IsExpanded := by
  simp only [IsExpanded, subforms_list, List.mem_cons, list.injEq, List.mem_flatMap, not_or,
    not_exists, not_and]
  constructor
  · intro h
    exact ⟨fun tail htail => (h tail).1 htail.symm, fun form hform tail => (h tail).2 form hform⟩
  · rintro ⟨hhead, hforms⟩ tail
    exact ⟨fun htail => hhead tail htail.symm, fun form hform => hforms form hform tail⟩

/-- What a well defined form expands to is expanded: a definition has become a list headed by an
assignment, and no other list has become headed by `def`. -/
theorem isExpanded_assigned (h : form.IsWellDefined) : form.assigned.IsExpanded := by
  induction form using nestingInduction with
  | list elements ih =>
    by_cases hhead : ∃ tail, elements = symbol "def" :: tail
    · obtain ⟨tail, rfl⟩ := hhead
      obtain ⟨name, form, rfl⟩ := exists_eq_of_isWellDefined h
      have hform := ih form (by simp) (isWellDefined_definition_iff.mp h)
      rw [assigned_definition, isExpanded_list_iff]
      refine ⟨by simp, ?_⟩
      simp [hform, isExpanded_of_depth_eq_zero]
    · rw [not_exists] at hhead
      have hwell := (isWellDefined_list_iff_of_ne hhead).mp h
      rw [assigned_list_of_ne hhead, isExpanded_list_iff, List.forall_mem_map]
      exact ⟨map_assigned_ne hhead, fun form hform => ih form hform (hwell form hform)⟩
  | _ =>
    rw [assigned_of_depth_eq_zero (by simp)]
    exact isExpanded_of_depth_eq_zero (by simp)

/-- An expanded form expands to itself. -/
theorem IsExpanded.expandsTo_self (h : form.IsExpanded) : form.ExpandsTo form := by
  induction form using nestingInduction with
  | list elements ih =>
    obtain ⟨hhead, hforms⟩ := isExpanded_list_iff.mp h
    exact .list hhead (List.forall₂_same.mpr fun form hform => ih form hform (hforms form hform))
  | _ => exact .atom (by simp)

/-- An assignment with its form is as deep as the definition, so expansion keeps the depth. -/
theorem depth_assigned (form : Form) : form.assigned.depth = form.depth := by
  induction form using nestingInduction with
  | list elements ih =>
    rw [assigned_list]
    rcases rewriteDefinition_map_assigned elements with ⟨name, form, rfl, heq⟩ | heq
    · rw [heq]
      simp [depthAll, ih form (by simp)]
    · rw [heq, depth_list, depth_list, depthAll_map_of_forall ih]
  | _ => rw [assigned_of_depth_eq_zero (by simp)]

end Form

/-! ### Environments -/

namespace Environment

open Form

variable {env : Environment}

/-- Expansion makes of a form that keeps the limit what the form expands to. -/
theorem expand_eq_ok_iff (h : env.toDialect.ExpandsDefinitions) {form out : Form} :
    env.expand form = .ok out ↔ form.depth ≤ env.limit ∧ form.ExpandsTo out := by
  rw [expand, Dialect.expand, Dialect.expandAt_eq_ok_iff h (Nat.zero_le _), Nat.zero_add, and_assoc,
    expandsTo_iff]

/-- **The exact meaning of definitions.** Let definitions be what a dialect expands. A form can be
expanded if and only if it keeps the limit on nesting and each list in it that is headed by `def` goes
on with a symbol and one form. Expansion makes of it the same form with an assignment in the place of
each definition. In what is made no list is headed by `def`, it is as deep as the form, and expanding
it again gives it back. -/
theorem expand_exact (h : env.toDialect.ExpandsDefinitions) (form : Form) :
    ((∃ out, env.expand form = .ok out) ↔ form.depth ≤ env.limit ∧ form.IsWellDefined) ∧
      ∀ out, (env.expand form = .ok out ↔ form.depth ≤ env.limit ∧ form.ExpandsTo out) ∧
        (env.expand form = .ok out →
          out.IsExpanded ∧ out.depth = form.depth ∧ env.expand out = .ok out) := by
  refine ⟨?_, fun out => ⟨expand_eq_ok_iff h, fun hout => ?_⟩⟩
  · simp only [expand_eq_ok_iff h, expandsTo_iff, exists_and_left, exists_eq, and_true]
  · obtain ⟨hlimit, hexpands⟩ := (expand_eq_ok_iff h).mp hout
    obtain ⟨hwell, rfl⟩ := expandsTo_iff.mp hexpands
    have hexpanded := isExpanded_assigned hwell
    refine ⟨hexpanded, depth_assigned form, (expand_eq_ok_iff h).mpr ⟨?_, hexpanded.expandsTo_self⟩⟩
    rwa [depth_assigned]

/-- Definitions in the value of a definition and at the head of a list, beside a `def` that heads
nothing and an assignment that was there before; all of it just as deep as the limit allows. -/
theorem expand_exact_nested :
    let env := standard.setLimit 3
    let form : Form := .list
      [.list [.symbol "def", .symbol "f", .list [.symbol "def", .symbol "x", .string "'s'"]],
        .symbol "def", .list [.assign "y", .list []]]
    let out : Form := .list
      [.list [.assign "f", .list [.assign "x", .string "'s'"]],
        .symbol "def", .list [.assign "y", .list []]]
    env.expand form = .ok out ∧ form.depth ≤ 3 ∧ form.IsWellDefined ∧ form.ExpandsTo out ∧
      out.IsExpanded ∧ out.depth = form.depth ∧ env.expand out = .ok out := by
  intro env form out
  have hdefinitions : env.toDialect.ExpandsDefinitions := rfl
  have hout : env.expand form = .ok out := rfl
  obtain ⟨hsucceeds, hexact⟩ := expand_exact hdefinitions form
  obtain ⟨hlimit, hwell⟩ := hsucceeds.mp ⟨out, hout⟩
  exact ⟨hout, hlimit, hwell, ((hexact out).1.mp hout).2, (hexact out).2 hout⟩

end Environment

end ListLanguage
