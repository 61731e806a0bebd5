import Mathlib.Data.List.Infix
import ListLanguage.Form.Reader
import ListLanguage.Proofs.Form.Nesting

/-!
# Outlines

The **outline** of a form is the form written from left to right as a row of marks: a list is an
opening mark, the outlines of its elements and a closing mark, and everything else is a leaf. A
row of tokens has an outline too, each bracket and each atom giving one mark. So reading forms
from tokens means finding forms with a given outline.

Outlines are unambiguous: no two rows of forms have the same one (`outlineAll_injective`).

The **height** of a row of marks is the number of its opening marks less the number of its
closing ones; the height of the marks of some tokens is the **surplus** of opening brackets among
the tokens. The outline of a form has height zero, and along it the height rises to the form's
depth.
-/

namespace ListLanguage

/-- One sign of an outline. -/
inductive Mark where
  | opening
  | closing
  | leaf (form : Form)

namespace Mark

/-- What a mark adds to the number of open lists. -/
def rise : Mark → Int
  | opening => 1
  | closing => -1
  | leaf _ => 0

@[simp]
theorem rise_opening : rise opening = 1 := rfl

@[simp]
theorem rise_closing : rise closing = -1 := rfl

@[simp]
theorem rise_leaf (form : Form) : rise (leaf form) = 0 := rfl

/-- The number of opening marks less the number of closing ones. -/
def height : List Mark → Int
  | [] => 0
  | mark :: marks => mark.rise + height marks

@[simp]
theorem height_nil : height [] = 0 := rfl

@[simp]
theorem height_cons (mark : Mark) (marks : List Mark) :
    height (mark :: marks) = mark.rise + height marks := rfl

@[simp]
theorem height_append (as bs : List Mark) : height (as ++ bs) = height as + height bs := by
  induction as with
  | nil => simp
  | cons mark as ih => rw [List.cons_append, height_cons, height_cons, ih, Int.add_assoc]

end Mark

/-- The mark of a token. -/
def Token.mark (token : Token) : Mark :=
  match token.kind with
  | .opening => .opening
  | .closing => .closing
  | .number | .quoted | .symbol => .leaf (.ofAtom token)

theorem Token.kind_of_mark_eq_opening {token : Token} (h : token.mark = .opening) :
    token.kind = .opening := by
  rw [mark] at h
  cases hkind : token.kind <;> simp_all

theorem Token.kind_of_mark_eq_closing {token : Token} (h : token.mark = .closing) :
    token.kind = .closing := by
  rw [mark] at h
  cases hkind : token.kind <;> simp_all

/-- The number of opening brackets among some tokens, less the number of closing ones. -/
def Token.surplus (tokens : List Token) : Int :=
  tokens.countP (·.kind = .opening) - tokens.countP (·.kind = .closing)

/-- The surplus of some tokens is the height of their marks. -/
theorem Token.surplus_eq_height (tokens : List Token) :
    surplus tokens = Mark.height (tokens.map mark) := by
  induction tokens with
  | nil => rfl
  | cons token tokens ih =>
    rw [List.map_cons, Mark.height_cons, ← ih, mark]
    simp only [surplus, List.countP_cons]
    cases token.kind <;> simp <;> omega

namespace Form

mutual

/-- A form, written as a row of marks. -/
def outline : Form → List Mark
  | list elements => .opening :: (outlineAll elements ++ [.closing])
  | form => [.leaf form]

/-- Some forms, written one after another. -/
def outlineAll : List Form → List Mark
  | [] => []
  | form :: forms => form.outline ++ outlineAll forms

end

theorem outline_list (elements : List Form) :
    (list elements).outline = .opening :: (outlineAll elements ++ [.closing]) := by
  rw [outline]

/-- What is no list is a leaf. -/
theorem outline_of_depth_eq_zero {form : Form} (h : form.depth = 0) :
    form.outline = [.leaf form] := by
  cases form with
  | list elements => simp at h
  | _ => rw [outline]; simp

@[simp]
theorem outlineAll_nil : outlineAll [] = [] := rfl

@[simp]
theorem outlineAll_cons (form : Form) (forms : List Form) :
    outlineAll (form :: forms) = form.outline ++ outlineAll forms := rfl

@[simp]
theorem outlineAll_append (fs gs : List Form) :
    outlineAll (fs ++ gs) = outlineAll fs ++ outlineAll gs := by
  induction fs with
  | nil => rfl
  | cons form fs ih => simp [ih]

theorem outlineAll_eq_flatMap (forms : List Form) :
    outlineAll forms = forms.flatMap outline := by
  induction forms with
  | nil => rfl
  | cons form forms ih => simp [ih]

/-- An atom is no list. -/
@[simp]
theorem depth_ofAtom (token : Token) : (ofAtom token).depth = 0 := by
  rw [ofAtom]
  cases token.kind with
  | number => cases Number.ofText? token.text <;> simp
  | _ => simp

/-- The leaf of an atom is what the atom stands for, and this is its own outline. -/
theorem outline_of_mark_eq_leaf {token : Token} {form : Form} (h : token.mark = .leaf form) :
    form.outline = [.leaf form] := by
  have hform : form = .ofAtom token := by
    rw [Token.mark] at h
    cases hkind : token.kind <;> simp_all
  exact outline_of_depth_eq_zero (hform ▸ depth_ofAtom token)

/-! ### Outlines are unambiguous -/

/-- The outline of a form begins with an opening mark or is a leaf. -/
theorem outline_eq_opening_or_leaf (form : Form) :
    (∃ elements, form = list elements) ∨ form.outline = [.leaf form] := by
  cases form with
  | list elements => exact .inl ⟨elements, rfl⟩
  | _ => exact .inr (outline_of_depth_eq_zero (by simp))

/-- No outline of a form begins with a closing mark. -/
theorem outline_append_ne_closing (form : Form) (rest marks : List Mark) :
    form.outline ++ rest ≠ .closing :: marks := by
  rcases outline_eq_opening_or_leaf form with ⟨elements, rfl⟩ | hleaf
  · simp [outline_list]
  · simp [hleaf]

/-- A row of forms can be told from the closing mark behind it, if this can be done for each of
them. -/
private theorem outlineAll_append_closing_inj {fs gs : List Form}
    (ih : ∀ form ∈ fs, ∀ (other : Form) (as bs : List Mark),
      form.outline ++ as = other.outline ++ bs → form = other ∧ as = bs)
    {as bs : List Mark}
    (h : outlineAll fs ++ .closing :: as = outlineAll gs ++ .closing :: bs) : fs = gs ∧ as = bs := by
  induction fs generalizing gs with
  | nil =>
    cases gs with
    | nil => simpa using h
    | cons other gs =>
      rw [outlineAll_cons, List.append_assoc] at h
      exact absurd h.symm (outline_append_ne_closing other _ _)
  | cons form fs ihf =>
    rw [outlineAll_cons, List.append_assoc] at h
    cases gs with
    | nil => exact absurd h (outline_append_ne_closing form _ _)
    | cons other gs =>
      rw [outlineAll_cons, List.append_assoc] at h
      obtain ⟨rfl, htail⟩ := ih form List.mem_cons_self other _ _ h
      obtain ⟨rfl, hrest⟩ := ihf (fun f hf => ih f (List.mem_cons_of_mem form hf)) htail
      exact ⟨rfl, hrest⟩

/-- An outline can be told from whatever follows it. -/
theorem outline_append_inj (form other : Form) (as bs : List Mark)
    (h : form.outline ++ as = other.outline ++ bs) : form = other ∧ as = bs := by
  induction form using nestingInduction generalizing other as bs with
  | list elements ih =>
    rcases outline_eq_opening_or_leaf other with ⟨others, rfl⟩ | hleaf
    · simp only [outline_list, List.cons_append, List.append_assoc, List.cons.injEq, true_and,
        List.nil_append] at h
      obtain ⟨rfl, hrest⟩ := outlineAll_append_closing_inj ih h
      exact ⟨rfl, hrest⟩
    · simp [outline_list, hleaf] at h
  | _ =>
    rw [outline_of_depth_eq_zero (by simp)] at h
    rcases outline_eq_opening_or_leaf other with ⟨others, rfl⟩ | hleaf
    · simp [outline_list] at h
    · simpa [hleaf] using h

/-- **Outlines are unambiguous**: rows of forms with the same outline are the same. -/
theorem outlineAll_injective : Function.Injective outlineAll := by
  intro fs gs h
  have hclosing : outlineAll fs ++ .closing :: [] = outlineAll gs ++ .closing :: [] := by rw [h]
  exact (outlineAll_append_closing_inj (fun form _ => outline_append_inj form) hclosing).1

/-! ### Heights along an outline -/

open Mark

@[simp]
theorem height_outlineAll_of_forall {forms : List Form}
    (h : ∀ form ∈ forms, height form.outline = 0) : height (outlineAll forms) = 0 := by
  induction forms with
  | nil => rfl
  | cons form forms ih =>
    rw [outlineAll_cons, height_append, h form List.mem_cons_self,
      ih fun f hf => h f (List.mem_cons_of_mem form hf), Int.add_zero]

/-- Every list that an outline opens is closed in it. -/
@[simp]
theorem height_outline (form : Form) : height form.outline = 0 := by
  induction form using nestingInduction with
  | list elements ih =>
    rw [outline_list, height_cons, height_append, height_outlineAll_of_forall ih]
    rfl
  | _ =>
    rw [outline_of_depth_eq_zero (by simp)]
    rfl

@[simp]
theorem height_outlineAll (forms : List Form) : height (outlineAll forms) = 0 :=
  height_outlineAll_of_forall fun form _ => height_outline form

/-- Somewhere along its outline, as many lists are open as a form is deep. -/
theorem exists_prefix_height_eq_depth (form : Form) :
    ∃ before, before <+: form.outline ∧ height before = form.depth := by
  induction form using nestingInduction with
  | list elements ih =>
    suffices hall : ∃ before, before <+: outlineAll elements ∧ height before = depthAll elements by
      obtain ⟨before, hbefore, hheight⟩ := hall
      refine ⟨.opening :: before, ?_, ?_⟩
      · rw [outline_list, List.prefix_cons_inj]
        exact hbefore.trans (List.prefix_append _ _)
      · rw [height_cons, hheight, depth_list, rise_opening]
        omega
    induction elements with
    | nil => exact ⟨[], List.nil_prefix, rfl⟩
    | cons form forms ihforms =>
      rw [depthAll, outlineAll_cons]
      -- the first form is the deepest, or the deepest one comes after it
      rcases Nat.le_total (depthAll forms) form.depth with hle | hle
      · obtain ⟨before, hbefore, hheight⟩ := ih form List.mem_cons_self
        refine ⟨before, hbefore.trans (List.prefix_append _ _), ?_⟩
        rw [hheight, Nat.max_eq_left hle]
      · obtain ⟨before, hbefore, hheight⟩ :=
          ihforms fun f hf => ih f (List.mem_cons_of_mem form hf)
        refine ⟨form.outline ++ before, (List.prefix_append_right_inj _).mpr hbefore, ?_⟩
        rw [height_append, height_outline, Int.zero_add, hheight, Nat.max_eq_right hle]
  | _ => exact ⟨[], List.nil_prefix, by simp⟩

end Form

end ListLanguage
