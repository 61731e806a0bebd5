import ListLanguage.Proofs.Form.Reading
import ListLanguage.Proofs.Number.Readback
import ListLanguage.Proofs.Token.Spelling

/-!
# Written forms read back

A form's text is read as the form again if its leaves are **words**: finite numbers, strings, and
symbols whose names are atoms that are read as symbols. Only a zero loses its sign on the way,
which `Form.reread` says. The text of such a form spells the form's outline (`spells_print`), so
the texts of some forms, joined by spaces, are read as these forms (`ofSource_intercalate_print`).
-/

namespace ListLanguage

open Text

/-! ### The leaf of an atom -/

namespace Token

variable {text : List Char} (offset : Nat)

theorem mark_atom_of_number {x : Float} (hkind : Kind.ofAtom text = .number)
    (hread : Number.ofText? (String.ofList text) = some x) :
    (atom text offset).mark = .leaf (.number x) := by
  simp [atom, mark, Form.ofAtom, hkind, hread]

theorem mark_atom_of_quoted (hkind : Kind.ofAtom text = .quoted) :
    (atom text offset).mark = .leaf (.string (String.ofList text)) := by
  simp [atom, mark, Form.ofAtom, hkind]

theorem mark_atom_of_symbol (hkind : Kind.ofAtom text = .symbol) :
    (atom text offset).mark = .leaf (.symbol (String.ofList text)) := by
  simp [atom, mark, Form.ofAtom, hkind]

end Token

namespace Form

/-- A leaf whose text is one atom, which is read as the leaf. -/
def IsWord : Form → Prop
  | number x => x.isFinite
  | string stored => IsString stored.toList
  | symbol name => ∃ run string, name.toList = run ++ string ∧ IsAtom run string ∧
      Token.Kind.ofAtom name.toList = .symbol
  | _ => False

mutual

/-- The form as which the text of a form is read: the same one, with every zero positive. -/
def reread : Form → Form
  | number x => number (Number.reread x)
  | list elements => list (rereadAll elements)
  | form => form

/-- The forms as which the texts of some forms are read. -/
def rereadAll : List Form → List Form
  | [] => []
  | form :: forms => form.reread :: rereadAll forms

end

@[simp]
theorem rereadAll_eq_map (forms : List Form) : rereadAll forms = forms.map reread := by
  induction forms with
  | nil => rfl
  | cons form forms ih => simp [rereadAll, ih]

@[simp]
theorem reread_number (x : Float) : (number x).reread = number (Number.reread x) := by
  rw [reread]

@[simp]
theorem reread_string (stored : String) : (string stored).reread = string stored := by
  rw [reread]
  all_goals simp

@[simp]
theorem reread_symbol (name : String) : (symbol name).reread = symbol name := by
  rw [reread]
  all_goals simp

@[simp]
theorem reread_list (elements : List Form) : (list elements).reread = list (elements.map reread) := by
  rw [reread, rereadAll_eq_map]

/-- Reading a form's text again does not change how deep the form is. -/
theorem depth_reread (form : Form) : form.reread.depth = form.depth := by
  induction form using nestingInduction with
  | number x => simp
  | string stored => simp
  | symbol name => simp
  | assign name => simp [reread]
  | list elements ih =>
    rw [reread_list, depth_list, depth_list, depthAll_map_of_forall ih]

/-! ### Texts of forms -/

/-- The text of a finite number spells the number that it is read as. -/
theorem spells_text {x : Float} (h : x.isFinite) :
    Spells (Number.text x).toList [.leaf (number (Number.reread x))] := by
  have hnumeral := Number.isNumeral_text h
  have hkind : Token.Kind.ofAtom ((Number.text x).toList ++ []) = .number := by
    rw [List.append_nil]
    exact Token.Kind.ofAtom_eq_number_iff.mpr hnumeral
  have hread : Number.ofText? (String.ofList ((Number.text x).toList ++ [])) =
      some (Number.reread x) := by
    rw [List.append_nil, String.ofList_toList, Number.ofText?_text h]
  have hspells := Spells.atom hnumeral.isAtom fun offset =>
    Token.mark_atom_of_number offset hkind hread
  rwa [List.append_nil] at hspells

/-- A string spells itself: it is an atom without a run before it. -/
theorem spells_string {stored : String} (h : IsString stored.toList) :
    Spells stored.toList [.leaf (string stored)] := by
  have hatom : IsAtom [] stored.toList := ⟨by simp, .inr h, h.ne_nil⟩
  have hkind : Token.Kind.ofAtom ([] ++ stored.toList) = .quoted :=
    ((Token.Kind.eq_ofAtom_iff hatom).mpr
      ⟨by decide, by simp [h.ne_nil], by simp [h.ne_nil]⟩).symm
  have hspells := Spells.atom hatom fun offset => Token.mark_atom_of_quoted offset hkind
  rwa [List.nil_append, String.ofList_toList] at hspells

/-- The text of a form whose leaves are words spells the form. -/
theorem spells_print {form : Form} (h : ∀ leaf ∈ form.leaves, leaf.IsWord) :
    Spells form.print.toList form.reread.outline := by
  induction form using nestingInduction with
  | number x =>
    have hfinite : x.isFinite := h (number x) (by simp [leaves])
    simpa [print, outline] using spells_text hfinite
  | string stored =>
    have hstring : IsString stored.toList := h (string stored) (by simp [leaves])
    simpa [print, outline] using spells_string hstring
  | symbol name =>
    obtain ⟨run, string, hname, hatom, hkind⟩ := h (symbol name) (by simp [leaves])
    rw [hname] at hkind
    have hspells := Spells.atom hatom fun offset => Token.mark_atom_of_symbol offset hkind
    rw [← hname, String.ofList_toList] at hspells
    simpa [print, outline] using hspells
  | assign name => exact absurd (h (assign name) (by simp [leaves])) id
  | list elements ih =>
    -- the elements stand between the brackets, kept apart by single spaces
    have helements : ∀ form ∈ elements, Spells form.print.toList form.reread.outline :=
      fun form hform => ih form hform fun leaf hleaf => h leaf (mem_leaves_list hform hleaf)
    rw [print, printAll_eq_map, reread_list, outline_list, outlineAll_eq_flatMap,
      List.flatMap_map]
    exact Spells.bracketed helements

/-- The texts of some forms, joined by spaces, are read as these forms. -/
theorem ofSource_intercalate_print {forms : List Form} {limit : Nat}
    (h : ∀ form ∈ forms, ∀ leaf ∈ form.leaves, leaf.IsWord)
    (hlimit : ∀ form ∈ forms, form.depth ≤ limit) :
    ofSource (" ".intercalate (forms.map print)) false limit = .ok (forms.map reread) := by
  have hspells := Spells.intercalate fun form hform => spells_print (h form hform)
  obtain ⟨tokens, htokens, hmarks⟩ := hspells.tokenize_eq_ok
  have houtline : outlineAll (forms.map reread) = tokens.map Token.mark := by
    rw [hmarks, outlineAll_eq_flatMap, List.flatMap_map]
  have hdepth : ∀ form ∈ forms.map reread, form.depth ≤ limit := by
    intro form hform
    obtain ⟨source, hsource, rfl⟩ := List.mem_map.mp hform
    rw [depth_reread]
    exact hlimit source hsource
  have hforms := ofTokens_eq_ok_of_outlineAll houtline hdepth
  rw [ofSource, htokens]
  change (ofTokens tokens limit).mapError Error.parse = _
  rw [hforms]
  rfl

end Form

end ListLanguage
