import Mathlib.Data.List.Induction
import ListLanguage.Proofs.Number.Numeral
import ListLanguage.Token.Scanner

/-!
# Atoms

An **atom** is a run of plain characters followed by at most one string, and it is not empty. A
character is plain if it is no blank, no bracket and no quote mark. A **string** is a quote mark,
a body and the same mark again; inside the body the mark stands only directly behind a
backslash, and the body does not end in a backslash.

What kind of token an atom is shows in these two parts (`ofAtom_eq_iff`), and a scanner reads an
atom as one piece: the run joins the pending atom, and the string does so too and completes it
(`read_run`, `read_string`).
-/

namespace ListLanguage

namespace Text

/-- A character that an atom can hold outside a string. -/
def IsPlain (c : Char) : Prop :=
  isBlank c = false ∧ c ≠ '(' ∧ c ≠ ')' ∧ isQuoteMark c = false

/-- A text in which a mark stands only directly behind a backslash. -/
def IsGuarded (mark : Char) (body : List Char) : Prop :=
  ∀ before after, body = before ++ mark :: after → before.getLast? = some '\\'

/-- A string with its quote marks. -/
def IsString (text : List Char) : Prop :=
  ∃ mark body, text = mark :: (body ++ [mark]) ∧ isQuoteMark mark ∧ IsGuarded mark body ∧
    body.getLast? ≠ some '\\'

/-- An atom, given by its run of plain characters and by its string, which may be missing. -/
structure IsAtom (run string : List Char) : Prop where
  plain : ∀ c ∈ run, IsPlain c
  eq_nil_or_isString : string = [] ∨ IsString string
  ne_nil : run ++ string ≠ []

theorem isGuarded_nil (mark : Char) : IsGuarded mark [] := by
  intro before after h
  simp at h

/-- A guarded text goes on with any character but an unguarded mark. -/
theorem isGuarded_concat {mark c : Char} {body : List Char} :
    IsGuarded mark (body ++ [c]) ↔
      IsGuarded mark body ∧ (c = mark → body.getLast? = some '\\') := by
  constructor
  · intro h
    refine ⟨fun before after hbody => h before (after ++ [c]) (by simp [hbody]), ?_⟩
    rintro rfl
    exact h body [] rfl
  · rintro ⟨hbody, hc⟩ before after h
    rcases List.eq_nil_or_concat after with rfl | ⟨front, last, rfl⟩
    · obtain ⟨rfl, hlast⟩ := List.append_inj' h rfl
      exact hc (List.cons.inj hlast).1
    · have h' : body ++ [c] = (before ++ mark :: front) ++ [last] := by simpa using h
      exact hbody before front (List.append_inj' h' rfl).1

theorem isQuoteMark_iff {c : Char} : isQuoteMark c ↔ c = '"' ∨ c = '\'' := by
  simp [isQuoteMark]

/-- A quote mark is neither a bracket, nor a blank, nor a backslash. -/
theorem isQuoteMark.ne {c : Char} (h : isQuoteMark c) :
    c ≠ '(' ∧ c ≠ ')' ∧ isBlank c = false ∧ c ≠ '\\' := by
  rcases isQuoteMark_iff.mp h with rfl | rfl <;> decide

/-- A string is quoted. -/
theorem IsString.isQuoted {text : List Char} (h : IsString text) : isQuoted text := by
  obtain ⟨mark, body, rfl, hmark, -⟩ := h
  simp [Text.isQuoted, hmark]

theorem IsString.ne_nil {text : List Char} (h : IsString text) : text ≠ [] := by
  obtain ⟨mark, body, rfl, -⟩ := h
  simp

/-- A run of plain characters is not quoted, whatever follows it. -/
theorem isQuoted_run_append {run : List Char} (hplain : ∀ c ∈ run, IsPlain c) (hne : run ≠ [])
    (rest : List Char) : isQuoted (run ++ rest) = false := by
  obtain ⟨c, cs, rfl⟩ := List.exists_cons_of_ne_nil hne
  simp [isQuoted, (hplain c List.mem_cons_self).2.2.2]

/-- A string holds a quote mark. -/
theorem IsString.exists_mark {text : List Char} (h : IsString text) :
    ∃ mark ∈ text, isQuoteMark mark := by
  obtain ⟨mark, body, rfl, hmark, -⟩ := h
  exact ⟨mark, List.mem_cons_self, hmark⟩

end Text

/-! ### The kind of an atom -/

namespace Number

/-- A numeral is made of digits, signs and points. -/
theorem IsNumeral.forall_mem {text : List Char} (h : IsNumeral text) :
    ∀ c ∈ text, c.isDigit ∨ c = '-' ∨ c = '+' ∨ c = '.' := by
  obtain ⟨sign, whole, fraction, rfl, hsign, hwhole, hfraction⟩ := h
  have hall := (isDigits_iff.mp hwhole).2
  intro c hc
  simp only [List.mem_append] at hc
  rcases hc with hc | hc | hc
  · rcases hsign with rfl | rfl | rfl <;> simp_all
  · exact .inl (hall c hc)
  · rcases hfraction with rfl | ⟨digits, rfl, hdigits⟩
    · cases hc
    · rcases List.mem_cons.mp hc with rfl | hc
      · simp
      · exact .inl ((isDigits_iff.mp hdigits).2 c hc)

theorem isPlain_of_isDigit {c : Char} (h : c.isDigit) : Text.IsPlain c := by
  have hrange : 48 ≤ c.toNat ∧ c.toNat ≤ 57 := by
    simp only [Char.isDigit, Bool.and_eq_true, decide_eq_true_eq] at h
    exact h
  have hdouble : c ≠ '"' := ne_of_isDigit h rfl
  have hsingle : c ≠ '\'' := ne_of_isDigit h rfl
  refine ⟨?_, ne_of_isDigit h rfl, ne_of_isDigit h rfl, ?_⟩
  · simp [Text.isBlank, Text.blankRanges]
    omega
  · simp [Text.isQuoteMark, hdouble, hsingle]

/-- A numeral is an atom without a string. -/
theorem IsNumeral.isAtom {text : List Char} (h : IsNumeral text) : Text.IsAtom text [] where
  plain c hc := by
    rcases h.forall_mem c hc with hdigit | rfl | rfl | rfl
    · exact isPlain_of_isDigit hdigit
    all_goals exact ⟨by decide, by decide, by decide, by decide⟩
  eq_nil_or_isString := .inl rfl
  ne_nil := by
    obtain ⟨sign, whole, fraction, rfl, -, hwhole, -⟩ := h
    have hne := (isDigits_iff.mp hwhole).1
    simp [hne]

end Number

namespace Token.Kind

open Text Number

/-- The kind of an atom, told from its parts: a string alone is quoted, a numeral alone is a
number, and any other atom is a symbol. -/
structure IsOfAtom (kind : Kind) (run string : List Char) : Prop where
  ne_bracket : kind ≠ .opening ∧ kind ≠ .closing
  quoted_iff : kind = .quoted ↔ run = [] ∧ string ≠ []
  number_iff : kind = .number ↔ string = [] ∧ IsNumeral run

variable {kind : Kind} {run string : List Char}

/-- An atom is quoted if it is a string alone. -/
theorem isQuoted_atom (h : IsAtom run string) :
    isQuoted (run ++ string) ↔ run = [] ∧ string ≠ [] := by
  by_cases hrun : run = []
  · subst hrun
    rcases h.eq_nil_or_isString with rfl | hstring
    · exact absurd rfl h.ne_nil
    · simp [hstring.isQuoted, hstring.ne_nil]
  · simp [isQuoted_run_append h.plain hrun, hrun]

/-- An atom with a string is no numeral, since a numeral has no quote mark in it. -/
theorem isNumeral_atom (h : IsAtom run string) :
    isNumeral (run ++ string) ↔ string = [] ∧ IsNumeral run := by
  rw [isNumeral_iff]
  rcases h.eq_nil_or_isString with rfl | hstring
  · simp
  · refine ⟨fun hnumeral => ?_, fun hnil => absurd hnil.1 hstring.ne_nil⟩
    obtain ⟨mark, hmem, hmark⟩ := hstring.exists_mark
    have hchar := hnumeral.forall_mem mark (List.mem_append_right run hmem)
    rcases isQuoteMark_iff.mp hmark with rfl | rfl <;> exact absurd hchar (by decide)

/-- The kind of an atom is told from its parts, and only one kind fits them. -/
theorem eq_ofAtom_iff (h : IsAtom run string) :
    kind = ofAtom (run ++ string) ↔ kind.IsOfAtom run string := by
  have hquoted := isQuoted_atom h
  have hnumeral := isNumeral_atom h
  constructor
  · rintro rfl
    rw [ofAtom]
    by_cases hq : isQuoted (run ++ string)
    · rw [if_pos hq]
      have hparts := hquoted.mp hq
      exact ⟨by decide, by simp [hparts], by simp [hparts.2]⟩
    · rw [if_neg hq]
      by_cases hn : isNumeral (run ++ string)
      · rw [if_pos hn]
        exact ⟨by decide, by simp [← hquoted, hq], by simp [hnumeral.mp hn]⟩
      · rw [if_neg hn]
        exact ⟨by decide, by simp [← hquoted, hq], by simp [← hnumeral, hn]⟩
  · rintro ⟨hbracket, hquotediff, hnumberiff⟩
    rw [← hquoted] at hquotediff
    rw [← hnumeral] at hnumberiff
    rw [ofAtom]
    cases kind with
    | opening => exact absurd rfl hbracket.1
    | closing => exact absurd rfl hbracket.2
    | quoted => simp_all
    | number => simp_all
    | symbol =>
      have hq : ¬isQuoted (run ++ string) := fun hq => absurd (hquotediff.mpr hq) (by decide)
      have hn : ¬isNumeral (run ++ string) := fun hn => absurd (hnumberiff.mpr hn) (by decide)
      rw [if_neg hq, if_neg hn]

/-- The atoms that are numbers are the numerals. -/
theorem ofAtom_eq_number_iff {text : List Char} : ofAtom text = .number ↔ IsNumeral text := by
  constructor
  · intro h
    rw [ofAtom] at h
    split_ifs at h with hquoted hnumeral
    exact isNumeral_iff.mp hnumeral
  · intro h
    have hkind : .number = ofAtom (text ++ []) :=
      (eq_ofAtom_iff h.isAtom).mpr ⟨by decide, by simp, by simp [h]⟩
    rw [hkind, List.append_nil]

end Token.Kind

/-! ### Reading an atom -/

namespace Scanner

open Text

variable {s : Scanner}

theorem step_of_isPlain {c : Char} (hs : s.mark = none) (hc : IsPlain c) : s.step c = s.join c := by
  obtain ⟨hblank, hopening, hclosing, hmark⟩ := hc
  simp [step, hs, hopening, hclosing, hblank, hmark]

theorem step_of_isQuoteMark {c : Char} (hs : s.mark = none) (hc : isQuoteMark c) :
    s.step c = { s.join c with mark := some c } := by
  obtain ⟨hopening, hclosing, hblank, -⟩ := isQuoteMark.ne hc
  simp [step, hs, hopening, hclosing, hblank, hc]

/-- A run of plain characters joins the pending atom. -/
theorem read_run {run : List Char} (hs : s.mark = none) (hrun : ∀ c ∈ run, IsPlain c) :
    s.read run = { s with pending := run.reverse ++ s.pending } := by
  induction run generalizing s with
  | nil => rfl
  | cons c cs ih =>
    rw [read_cons, step_of_isPlain hs (hrun c List.mem_cons_self),
      ih (s := s.join c) hs fun d hd => hrun d (List.mem_cons_of_mem c hd)]
    simp [join]

/-- Inside a string, a guarded body joins the pending atom. -/
theorem read_body {mark : Char} {body : List Char} (hs : s.mark = some mark)
    (hbody : IsGuarded mark body) :
    s.read body = { s with pending := body.reverse ++ s.pending } := by
  induction body using List.reverseRecOn with
  | nil => rfl
  | append_singleton body c ih =>
    obtain ⟨hfront, hlast⟩ := isGuarded_concat.mp hbody
    rw [read_append, ih hfront, read_cons, read_nil]
    -- the mark is read behind a backslash only, so it does not end the string
    have hjoin : ¬(c = mark ∧ (body.reverse ++ s.pending).head? ≠ some '\\') := by
      rintro ⟨hc, hhead⟩
      exact hhead (by simp [hlast hc])
    simp only [step, hs]
    rw [if_neg hjoin]
    simp [join]

/-- A string joins the pending atom and completes it. -/
theorem read_string {string : List Char} (hs : s.mark = none) (hstring : IsString string) :
    s.read string = ({ s with pending := string.reverse ++ s.pending } : Scanner).flush := by
  obtain ⟨mark, body, rfl, hmark, hbody, hlast⟩ := hstring
  obtain ⟨-, -, -, hbackslash⟩ := isQuoteMark.ne hmark
  rw [read_cons, step_of_isQuoteMark hs hmark, read_append, read_body rfl hbody, read_cons,
    read_nil]
  have hend : (body.reverse ++ mark :: s.pending).head? ≠ some '\\' := by
    rw [List.head?_append, List.head?_reverse]
    cases hbodylast : body.getLast? with
    | none => simpa using hbackslash
    | some c => simpa [hbodylast] using hlast
  simp only [step, join]
  rw [if_pos ⟨trivial, hend⟩]
  simp [flush, offset]

end Scanner

end ListLanguage
