import ListLanguage.Proofs.Except
import ListLanguage.Proofs.Form.Leaves
import ListLanguage.Proofs.Form.Limit
import ListLanguage.Proofs.Form.Numbers
import ListLanguage.Proofs.Form.Printing
import ListLanguage.Proofs.Token.String

/-!
# Programs that are printed and read again

The leaves of forms that are read from a source are words, unless a number among them is too large
for a double (`Token.IsShaped.isWord`): a quoted token is a string, a numeral is read as a number, and
the name of a symbol is an atom, possibly with a string at its end. So the forms' texts, joined by
spaces, are read as forms that equal the first ones (`Form.exists_ofSource_print_eq`). The texts need
not be those in the source: numbers are written in another way, and blanks are left out.
-/

namespace ListLanguage

open Text

/-! ### Leaves of a source -/

/-- The leaf of a token of a source is a word, unless it is a number that is not finite. -/
theorem Token.IsShaped.isWord {token : Token} {leaf : Form} (h : token.IsShaped)
    (hmark : token.mark = .leaf leaf) (hfinite : ∀ x, leaf = .number x → x.isFinite) :
    leaf.IsWord := by
  obtain rfl := eq_ofAtom_of_mark_eq_leaf hmark
  cases h with
  | opening hkind htext => simp [mark, hkind] at hmark
  | closing hkind htext => simp [mark, hkind] at hmark
  | @atom run string htext hatom hkind =>
    cases hcases : token.kind with
    | opening => exact absurd hcases hkind.ne_bracket.1
    | closing => exact absurd hcases hkind.ne_bracket.2
    | number =>
      obtain ⟨rfl, hnumeral⟩ := hkind.number_iff.mp hcases
      rw [← List.append_nil run, ← htext] at hnumeral
      obtain ⟨x, hleaf, -⟩ := Form.exists_ofAtom_eq_number hcases hnumeral
      rw [hleaf]
      exact hfinite x hleaf
    | quoted =>
      rw [Form.ofAtom_eq_string_iff.mpr ⟨hcases, rfl⟩]
      exact isString (.atom htext hatom hkind) hcases
    | symbol =>
      have hleaf : Form.ofAtom token = .symbol token.text := by simp [Form.ofAtom, hcases]
      have hofAtom := (Kind.eq_ofAtom_iff hatom).mpr hkind
      rw [hcases, ← htext] at hofAtom
      rw [hleaf]
      exact ⟨run, string, htext, hatom, hofAtom.symm⟩

namespace Form

variable {limit : Nat} {forms : List Form}

/-- The leaves of what is read strictly are words, unless a number is not finite. -/
theorem isWord_of_ofTokens_eq_ok {source : String} {tokens : List Token}
    (htokens : tokenize source = .ok tokens) (hforms : ofTokens tokens limit = .ok forms)
    (hfinite : ∀ form ∈ forms, ∀ x, number x ∈ form.leaves → x.isFinite) :
    ∀ form ∈ forms, ∀ leaf ∈ form.leaves, leaf.IsWord := by
  intro form hform leaf hleaf
  obtain ⟨token, htoken, hmark⟩ := exists_mark_eq_of_mem_leaves hforms hform hleaf
  obtain ⟨tight, hcut⟩ := tokenize_eq_ok_iff_cut.mp htokens
  have hshaped := hcut.decomposition.1.isShaped token htoken
  refine hshaped.isWord hmark fun x hx => ?_
  exact hfinite form hform x (hx ▸ hleaf)

/-! ### Equality with what was printed -/

/-- Sequences of forms are compared element by element. -/
theorem equalAll_eq_beq (fs gs : List Form) : equalAll fs gs = (fs == gs) := by
  induction fs generalizing gs with
  | nil => cases gs <;> rfl
  | cons f fs ih =>
    cases gs with
    | nil => rfl
    | cons g gs =>
      rw [equalAll, ih, List.cons_beq_cons]
      rfl

theorem map_reread_beq (h : ∀ form ∈ forms, (form.reread == form) = true) :
    (forms.map reread == forms) = true := by
  induction forms with
  | nil => rfl
  | cons form forms ih =>
    rw [List.map_cons, List.cons_beq_cons, h form List.mem_cons_self,
      ih fun other hother => h other (List.mem_cons_of_mem form hother)]
    rfl

/-- A form whose numbers are finite equals the one as which its text is read. -/
theorem reread_beq {form : Form} (hfinite : ∀ x, number x ∈ form.leaves → x.isFinite) :
    (form.reread == form) = true := by
  induction form using nestingInduction with
  | number x =>
    rw [reread_number]
    exact Number.reread_beq (hfinite x (by simp [leaves]))
  | string stored => simp [BEq.beq, equal]
  | symbol name => simp [BEq.beq, equal]
  | assign name => simp [BEq.beq, equal, reread]
  | list elements ih =>
    rw [reread_list]
    change equalAll (elements.map reread) elements = true
    rw [equalAll_eq_beq]
    exact map_reread_beq fun form hform =>
      ih form hform fun x hx => hfinite x (mem_leaves_list hform hx)

/-- **Printed programs read back.** Let a source be read, strictly, as forms in which all numbers are
finite. Then the texts of the forms, joined by spaces, are read as equal forms. -/
theorem exists_ofSource_print_eq {source : String} (h : ofSource source false limit = .ok forms)
    (hfinite : ∀ form ∈ forms, ∀ x, number x ∈ form.leaves → x.isFinite) :
    ∃ again, ofSource (" ".intercalate (forms.map print)) false limit = .ok again ∧
      (again == forms) = true := by
  rw [ofSource] at h
  simp only [Except.bind_eq_ok_iff, Except.mapError_eq_ok_iff] at h
  obtain ⟨tokens, htokens, hforms⟩ := h
  have hwords := isWord_of_ofTokens_eq_ok htokens hforms hfinite
  have hdepth := depth_le_of_ofTokens_eq_ok hforms
  refine ⟨forms.map reread, ofSource_intercalate_print hwords hdepth, ?_⟩
  exact map_reread_beq fun form hform => reread_beq (hfinite form hform)

/-- A negative zero, zeros in front of a number, a symbol that ends in a string with a blank and
brackets in it, strings in both marks, and no blanks around the inner brackets. -/
theorem exists_ofSource_print_eq_mixed :
    let zero := Number.ofRank true (Number.Decimal.rank ⟨0, 0⟩)
    let seven := Number.ofRank false (Number.Decimal.rank ⟨7, 0⟩)
    let forms := [list [symbol "f", number zero, number seven, symbol "a\"b (c)\""],
      string "'x\"'", list [string "\"\\\"\""]]
    ofSource "(f -0 007 a\"b (c)\")'x\"'(\"\\\"\")" = .ok forms ∧
      ∃ again, ofSource (" ".intercalate (forms.map print)) = .ok again ∧
        (again == forms) = true := by
  intro zero seven forms
  have hread : ofSource "(f -0 007 a\"b (c)\")'x\"'(\"\\\"\")" = .ok forms := by rfl
  refine ⟨hread, exists_ofSource_print_eq hread fun form hform x hx => ?_⟩
  have hnumber : x = zero ∨ x = seven := by
    simp only [forms, List.mem_cons, List.not_mem_nil, or_false] at hform
    rcases hform with rfl | rfl | rfl
    · simpa [leaves] using hx
    · simp [leaves] at hx
    · simp [leaves] at hx
  rcases hnumber with rfl | rfl
  · exact Number.isFinite_iff.mpr (by decide +kernel)
  · exact Number.isFinite_iff.mpr (by decide +kernel)

end Form

end ListLanguage
