import Mathlib.Data.List.Forall2
import ListLanguage.Proofs.Except
import ListLanguage.Proofs.Form.Leaves
import ListLanguage.Proofs.Number.Notation
import ListLanguage.Proofs.Token.String

/-!
# Which leaves are numbers

Whether an atom is a number is decided twice, and not in the same way. Its kind is told by comparing
its text with the numerals; then the text of a number token is converted, and the conversion reads
more than numerals. On the atoms of a source the two agree. A numeral is converted, and not to the
value that is not a number; what is no numeral is not converted, whether it could be or not.

What could be converted is no string either, since it does not begin with a quote mark
(`IsReadable.isQuoted_eq_false`). So in the forms that are read from a source the numbers stand
where the numerals stood, and every other text of a number is a symbol (`Form.numbers_exact`).
-/

namespace ListLanguage

open Number Text

/-- What is read as a number does not begin with a quote mark. -/
theorem Number.IsReadable.isQuoted_eq_false {text : List Char} (h : IsReadable text) :
    isQuoted text = false := by
  obtain ⟨sign, body, rfl, hsign, hbody⟩ := h
  obtain ⟨c, cs, rfl, hc⟩ := hbody.exists_eq_cons
  rcases hsign with rfl | rfl | rfl
  · have hmark : isQuoteMark c = false := by
      rw [Bool.eq_false_iff]
      intro hmark
      rcases isQuoteMark_iff.mp hmark with rfl | rfl <;> exact absurd hc (by decide)
    simp [isQuoted, hmark]
  · rfl
  · rfl

namespace Token

instance : DecidablePred IsBracket := fun t =>
  inferInstanceAs (Decidable (t.kind = .opening ∨ t.kind = .closing))

/-- The leaf of a token is what it stands for, unless it is a bracket. -/
theorem leaf?_mark (t : Token) : t.mark.leaf? = if ¬t.IsBracket then some (.ofAtom t) else none := by
  cases hkind : t.kind <;> simp [mark, IsBracket, hkind, Mark.leaf?]

end Token

namespace Form

variable {source : String} {lenient : Bool} {tokens : List Token} {token : Token}

/-! ### What an atom stands for -/

/-- A numeral is converted. -/
theorem exists_ofAtom_eq_number (hkind : token.kind = .number) (h : IsNumeral token.text.toList) :
    ∃ x, ofAtom token = number x ∧ ¬x.isNaN := by
  obtain ⟨x, hread, hx⟩ := exists_ofText?_eq_some h
  exact ⟨x, by simp [ofAtom, hkind, hread], hx⟩

/-- A token that is not a number is not converted. -/
theorem ofAtom_eq_string_or_symbol (hkind : token.kind ≠ .number) :
    ofAtom token = string token.text ∨ ofAtom token = symbol token.text := by
  rw [ofAtom]
  cases h : token.kind <;> simp_all

/-- The kind of an atom of a source is number exactly if its text is a numeral. -/
theorem kind_eq_number_iff (h : tokenize source lenient = .ok tokens) (htoken : token ∈ tokens)
    (hatom : ¬token.IsBracket) : token.kind = .number ↔ IsNumeral token.text.toList := by
  obtain ⟨text, offset, rfl⟩ := (isBracket_or_exists_eq_atom h htoken).resolve_left hatom
  rw [Token.toList_text_atom]
  exact Token.Kind.ofAtom_eq_number_iff

/-- A leaf **stands for** an atom: it is what the atom is converted to, it is a number exactly if the
text of the atom is a numeral, and if any other text would be read as a number, it is a symbol. -/
structure StandsFor (token : Token) (leaf : Form) : Prop where
  eq_ofAtom : leaf = ofAtom token
  number_iff : (∃ x, leaf = number x) ↔ IsNumeral token.text.toList
  symbol_of_readable : ∀ x, ofText? token.text = some x → ¬IsNumeral token.text.toList →
    leaf = symbol token.text

/-- The leaf of an atom of a source stands for it. -/
theorem standsFor_ofAtom (h : tokenize source lenient = .ok tokens) (htoken : token ∈ tokens)
    (hatom : ¬token.IsBracket) : StandsFor token (ofAtom token) := by
  have hiff := kind_eq_number_iff h htoken hatom
  refine ⟨rfl, ⟨?_, fun hnumeral => ?_⟩, fun x hread hnumeral => ?_⟩
  · rintro ⟨x, hx⟩
    rw [← hiff]
    by_contra hkind
    rcases ofAtom_eq_string_or_symbol hkind with hstring | hsymbol
    · rw [hx] at hstring
      cases hstring
    · rw [hx] at hsymbol
      cases hsymbol
  · obtain ⟨x, hx, -⟩ := exists_ofAtom_eq_number (hiff.mpr hnumeral) hnumeral
    exact ⟨x, hx⟩
  · rcases ofAtom_eq_string_or_symbol (fun hkind => hnumeral (hiff.mp hkind)) with hstring | hsymbol
    · -- a quoted token has a quoted text, which is not read as a number
      have hquoted := isQuoted_of_tokenize_eq_ok h htoken (ofAtom_eq_string_iff.mp hstring).1
      rw [(exists_ofText?_eq_some_iff.mp ⟨x, hread⟩).isQuoted_eq_false] at hquoted
      cases hquoted
    · exact hsymbol

/-! ### Numbers in a source -/

/-- The leaves of what is read from tokens are those of the atoms among them. -/
theorem flatMap_leaves_eq_map {limit : Nat} {forms : List Form}
    (h : ofTokens tokens limit = .ok forms) :
    forms.flatMap leaves = (tokens.filter (¬·.IsBracket)).map ofAtom := by
  rw [flatMap_leaves_of_ofTokens_eq_ok h, ← List.filterMap_eq_map, List.filterMap_filter]
  refine List.filterMap_congr fun token _ => ?_
  rw [Token.leaf?_mark]
  simp

/-- **Numbers are numerals.** In either way of reading, each number token of a source is converted, and
not to the value that is not a number; each other atom becomes a string or a symbol with its text. So the
leaves of the forms that are read from the source stand, from left to right, for its atoms: they are
numbers where the atoms are numerals, and symbols where the atoms are other texts of numbers. -/
theorem numbers_exact (h : tokenize source lenient = .ok tokens) :
    (∀ token ∈ tokens, token.kind = .number → ∃ x, ofAtom token = number x ∧ ¬x.isNaN) ∧
      (∀ token ∈ tokens, ¬token.IsBracket → token.kind ≠ .number →
        ofAtom token = string token.text ∨ ofAtom token = symbol token.text) ∧
      ∀ limit forms, ofSource source lenient limit = .ok forms →
        List.Forall₂ StandsFor (tokens.filter (¬·.IsBracket)) (forms.flatMap leaves) := by
  refine ⟨fun token htoken hkind => ?_, fun token _ _ => ofAtom_eq_string_or_symbol,
    fun limit forms hforms => ?_⟩
  · have hatom : ¬token.IsBracket := by simp [Token.IsBracket, hkind]
    exact exists_ofAtom_eq_number hkind ((kind_eq_number_iff h htoken hatom).mp hkind)
  · rw [ofSource] at hforms
    simp only [Except.bind_eq_ok_iff, Except.mapError_eq_ok_iff] at hforms
    obtain ⟨others, hothers, hforms⟩ := hforms
    obtain rfl := Except.ok.inj (hothers.symm.trans h)
    rw [flatMap_leaves_eq_map hforms, List.forall₂_map_right_iff, List.forall₂_same]
    intro token htoken
    rw [List.mem_filter, decide_eq_true_iff] at htoken
    exact standsFor_ofAtom h htoken.1 htoken.2

/-- A numeral with a sign, zeros in front and a fraction, five other texts of numbers, a string, and a
symbol whose string is open. -/
theorem numbers_exact_mixed :
    let numeral : Token := ⟨.number, "-007.50", 1⟩
    let power : Token := ⟨.symbol, "1e5", 9⟩
    let inner : List Token := [numeral, power, ⟨.symbol, ".5", 13⟩, ⟨.symbol, "5.", 16⟩]
    let outer : List Token := [⟨.symbol, "inf", 19⟩, ⟨.symbol, "+NaN", 23⟩, ⟨.quoted, "\"2\"", 28⟩,
      ⟨.symbol, "'3", 31⟩]
    let tokens : List Token := ⟨.opening, "(", 0⟩ :: (inner ++ ⟨.closing, ")", 18⟩ :: outer)
    let x := Number.ofRank true (Number.Decimal.rank ⟨750, -2⟩)
    let forms := [list [number x, symbol "1e5", symbol ".5", symbol "5."], symbol "inf", symbol "+NaN",
      string "\"2\"", symbol "'3"]
    tokenize "(-007.50 1e5 .5 5.)inf +NaN \"2\"'3" true = .ok tokens ∧
      ofSource "(-007.50 1e5 .5 5.)inf +NaN \"2\"'3" true = .ok forms ∧
      numeral ∈ tokens ∧ numeral.kind = .number ∧ (∃ y, ofAtom numeral = number y ∧ ¬y.isNaN) ∧
      power ∈ tokens ∧ ¬power.IsBracket ∧ power.kind ≠ .number ∧
      (ofAtom power = string "1e5" ∨ ofAtom power = symbol "1e5") ∧
      List.Forall₂ StandsFor (inner ++ outer) (forms.flatMap leaves) := by
  intro numeral power inner outer tokens x forms
  have htokens : tokenize "(-007.50 1e5 .5 5.)inf +NaN \"2\"'3" true = .ok tokens := by rfl
  have hforms : ofSource "(-007.50 1e5 .5 5.)inf +NaN \"2\"'3" true = .ok forms := by rfl
  have hnumeral : numeral ∈ tokens := by decide
  have hpower : power ∈ tokens := by decide
  obtain ⟨hnumbers, hothers, hleaves⟩ := numbers_exact htokens
  exact ⟨htokens, hforms, hnumeral, rfl, hnumbers numeral hnumeral rfl, hpower, by decide, by decide,
    hothers power hpower (by decide) (by decide), hleaves nestingLimit forms hforms⟩

end Form

end ListLanguage
