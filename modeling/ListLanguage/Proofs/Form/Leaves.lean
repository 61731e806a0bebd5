import ListLanguage.Proofs.Form.Reading

/-!
# The leaves of what is read

The leaves of a form are those of its outline, in the same order (`filterMap_leaf?_outline`), so the
leaves of the forms that are read from tokens are those of the tokens, and each of them is what an
atom stands for. A form is **written** if it has no assignment in it, as expansion alone makes them.
Forms that are read are written, and a string in them is the text of a quoted token.
-/

namespace ListLanguage

/-- A leaf is what an atom stands for. -/
theorem Token.eq_ofAtom_of_mark_eq_leaf {token : Token} {leaf : Form} (h : token.mark = .leaf leaf) :
    leaf = .ofAtom token := by
  rw [mark] at h
  cases hkind : token.kind <;> simp_all

/-- The leaf that a mark is, if it is not a bracket. -/
def Mark.leaf? : Mark → Option Form
  | leaf form => some form
  | opening | closing => none

theorem Mark.leaf?_eq_some_iff {mark : Mark} {form : Form} :
    mark.leaf? = some form ↔ mark = .leaf form := by
  cases mark <;> simp [leaf?]

namespace Form

variable {tokens : List Token} {limit : Nat} {forms elements : List Form} {form leaf : Form}
  {token : Token}

/-- A form that has no assignment in it. -/
def IsWritten (form : Form) : Prop :=
  ∀ name, assign name ∉ form.leaves

/-- What lies in a written list is written. -/
theorem IsWritten.of_mem (h : (list elements).IsWritten) (hform : form ∈ elements) :
    form.IsWritten :=
  fun name hname => h name (mem_leaves_list hform hname)

/-- The leaves of a form are those of its outline, from left to right. -/
theorem filterMap_leaf?_outline (form : Form) :
    form.outline.filterMap Mark.leaf? = form.leaves := by
  induction form using nestingInduction with
  | list elements ih =>
    rw [outline_list, leaves_list, List.filterMap_cons_none rfl, List.filterMap_append,
      List.filterMap_cons_none rfl, List.filterMap_nil, List.append_nil, outlineAll_eq_flatMap,
      List.filterMap_flatMap]
    exact List.flatMap_congr ih
  | _ => rw [outline_of_depth_eq_zero (by simp), leaves_of_depth_eq_zero (by simp)]; rfl

theorem filterMap_leaf?_outlineAll (forms : List Form) :
    (outlineAll forms).filterMap Mark.leaf? = forms.flatMap leaves := by
  rw [outlineAll_eq_flatMap, List.filterMap_flatMap]
  exact List.flatMap_congr fun form _ => filterMap_leaf?_outline form

/-- The leaves of what is read are those of the tokens, from left to right. -/
theorem flatMap_leaves_of_ofTokens_eq_ok (h : ofTokens tokens limit = .ok forms) :
    forms.flatMap leaves = tokens.filterMap fun token => token.mark.leaf? := by
  rw [← filterMap_leaf?_outlineAll, outlineAll_of_ofTokens_eq_ok h, List.filterMap_map]
  rfl

/-- A leaf of what is read is that of one of the tokens. -/
theorem exists_mark_eq_of_mem_leaves (h : ofTokens tokens limit = .ok forms) (hform : form ∈ forms)
    (hleaf : leaf ∈ form.leaves) : ∃ token ∈ tokens, token.mark = .leaf leaf := by
  have hmem : leaf ∈ forms.flatMap leaves := List.mem_flatMap.mpr ⟨form, hform, hleaf⟩
  rw [flatMap_leaves_of_ofTokens_eq_ok h, List.mem_filterMap] at hmem
  obtain ⟨token, htoken, hmark⟩ := hmem
  exact ⟨token, htoken, Mark.leaf?_eq_some_iff.mp hmark⟩

/-- So it is what an atom among the tokens stands for. -/
theorem exists_ofAtom_eq_of_mem_leaves (h : ofTokens tokens limit = .ok forms)
    (hform : form ∈ forms) (hleaf : leaf ∈ form.leaves) : ∃ token ∈ tokens, leaf = ofAtom token := by
  obtain ⟨token, htoken, hmark⟩ := exists_mark_eq_of_mem_leaves h hform hleaf
  exact ⟨token, htoken, Token.eq_ofAtom_of_mark_eq_leaf hmark⟩

theorem ofAtom_ne_assign (token : Token) (name : String) : ofAtom token ≠ assign name := by
  rw [ofAtom]
  cases token.kind with
  | number => cases Number.ofText? token.text <;> simp
  | _ => simp

theorem ofAtom_eq_string_iff {stored : String} :
    ofAtom token = string stored ↔ token.kind = .quoted ∧ token.text = stored := by
  rw [ofAtom]
  cases token.kind with
  | number => cases Number.ofText? token.text <;> simp
  | _ => simp

/-- What is read is written. -/
theorem isWritten_of_ofTokens_eq_ok (h : ofTokens tokens limit = .ok forms) (hform : form ∈ forms) :
    form.IsWritten := by
  intro name hname
  obtain ⟨token, -, heq⟩ := exists_ofAtom_eq_of_mem_leaves h hform hname
  exact ofAtom_ne_assign token name heq.symm

/-- A string that is read is the text of a quoted token. -/
theorem exists_quoted_of_string_mem_leaves {stored : String} (h : ofTokens tokens limit = .ok forms)
    (hform : form ∈ forms) (hstored : string stored ∈ form.leaves) :
    ∃ token ∈ tokens, token.kind = .quoted ∧ token.text = stored := by
  obtain ⟨token, htoken, heq⟩ := exists_ofAtom_eq_of_mem_leaves h hform hstored
  exact ⟨token, htoken, ofAtom_eq_string_iff.mp heq.symm⟩

end Form

end ListLanguage
