import ListLanguage.Form.Reader
import ListLanguage.Proofs.Token.String

/-!
# Strings that are open at the end

A source that strict reading refuses ends in an **open atom**: a run of plain characters, a quote
mark, and a body in which the mark stands only directly behind a backslash. What stands before the
open atom has a cut of its own. Lenient reading finds the tokens of that cut and takes the open atom
as one more token (`tokenize_lenient_eq_ok`), so the two ways of reading differ in the last token at
most (`tokenize_lenient`).

The kind of an atom is told from its text, which does not say whether the string in it is open. An
open atom is no numeral. But if nothing stands before its mark and the body ends in a backslash and the
mark, its text begins and ends like that of a string, and it is taken for one
(`tokenize_lenient_last_kind`).
-/

namespace ListLanguage

open Text

namespace Text

/-- An **open atom**: plain characters, and a string of which the end is missing. -/
def IsOpenAtom (word : List Char) : Prop :=
  ∃ run mark body, word = run ++ mark :: body ∧ (∀ c ∈ run, IsPlain c) ∧ isQuoteMark mark ∧
    IsGuarded mark body

/-- A text that begins with a quote mark and ends in a backslash and the same mark. -/
def EndsInGuardedMark (word : List Char) : Prop :=
  ∃ mark body, isQuoteMark mark ∧ word = mark :: (body ++ ['\\', mark])

variable {word : List Char}

theorem IsOpenAtom.exists_mark (h : IsOpenAtom word) : ∃ mark ∈ word, isQuoteMark mark := by
  obtain ⟨run, mark, body, rfl, -, hmark, -⟩ := h
  exact ⟨mark, by simp, hmark⟩

theorem IsOpenAtom.ne_nil (h : IsOpenAtom word) : word ≠ [] := by
  obtain ⟨mark, hmem, -⟩ := h.exists_mark
  exact List.ne_nil_of_mem hmem

/-- An open atom is quoted if its body ends in the mark, which then stands behind a backslash. -/
theorem IsOpenAtom.isQuoted_iff (h : IsOpenAtom word) : isQuoted word ↔ EndsInGuardedMark word := by
  constructor
  · obtain ⟨run, mark, body, rfl, hplain, hmark, hbody⟩ := h
    intro hquoted
    by_cases hrun : run = []
    · subst hrun
      have hlast : body.getLast? = some mark := by simpa [isQuoted, hmark] using hquoted
      obtain ⟨front, rfl⟩ := List.getLast?_eq_some_iff.mp hlast
      obtain ⟨rest, rfl⟩ := List.getLast?_eq_some_iff.mp ((isGuarded_concat.mp hbody).2 rfl)
      exact ⟨mark, rest, hmark, by simp⟩
    · -- plain characters come before the mark, so the text does not begin like a string
      rw [isQuoted_run_append hplain hrun] at hquoted
      cases hquoted
  · rintro ⟨mark, body, hmark, rfl⟩
    simp [isQuoted, hmark]

/-- An open atom is no numeral, since it holds a quote mark. -/
theorem IsOpenAtom.isNumeral_eq_false (h : IsOpenAtom word) : Number.isNumeral word = false := by
  obtain ⟨mark, hmem, hmark⟩ := h.exists_mark
  rw [Bool.eq_false_iff, Ne, Number.isNumeral_iff]
  intro hnumeral
  rw [(hnumeral.isAtom.plain mark hmem).2.2.2] at hmark
  cases hmark

end Text

/-- The kind of an open atom: a string if it looks like one, and a symbol otherwise. -/
theorem Token.Kind.ofAtom_openAtom {word : List Char} (h : IsOpenAtom word) :
    (EndsInGuardedMark word → ofAtom word = .quoted) ∧
      (¬EndsInGuardedMark word → ofAtom word = .symbol) := by
  rw [ofAtom, ← h.isQuoted_iff, h.isNumeral_eq_false]
  exact ⟨fun hquoted => if_pos hquoted, fun hquoted => if_neg hquoted⟩

/-! ### The two ways of reading -/

section

variable {source : String} {tokens : List Token} {e : LexError}

/-- Lenient reading does not fail. -/
theorem exists_tokenize_lenient_eq_ok (source : String) :
    ∃ tokens, tokenize source true = .ok tokens := by
  simp [tokenize]

/-- What strict reading finds, lenient reading finds, too. -/
theorem tokenize_lenient_eq_ok (h : tokenize source = .ok tokens) :
    tokenize source true = .ok tokens := by
  simp only [tokenize] at h ⊢
  split at h
  · cases h
  · simpa using h

/-- A source that strict reading refuses ends in an open atom, behind a text with a cut. Lenient
reading finds the tokens of the cut and the open atom. -/
theorem exists_openAtom_of_tokenize_eq_error (h : tokenize source = .error e) :
    ∃ text tokens word, source.toList = text ++ word ∧ Cut text tokens false ∧ IsOpenAtom word ∧
      e = .unterminatedString source (byteLength text) ∧
      tokenize source true = .ok (tokens ++ [.atom word (byteLength text)]) := by
  have hread := HasRead.nil.read source.toList
  rw [List.nil_append] at hread
  simp only [tokenize] at h ⊢
  generalize ({} : Scanner).read source.toList = s at h hread ⊢
  -- strict reading fails only if the scanner is in a string at the end; then the open atom is pending
  cases hmark : s.mark with
  | none => simp [hmark] at h
  | some mark =>
    simp only [hmark, Option.isSome_some, Bool.not_false, Bool.and_self, if_true] at h
    obtain ⟨text, hsource, hcut, hstart⟩ := hread.exists_cut
    obtain ⟨hquote, run, body, hpending, hplain, hbody⟩ := hread.guarded_of_mark_eq_some mark hmark
    have hword : IsOpenAtom s.pending.reverse := ⟨run, mark, body, hpending, hplain, hquote, hbody⟩
    have hne : s.pending ≠ [] := by simpa using hword.ne_nil
    refine ⟨text, s.tokens.reverse, s.pending.reverse, hsource, hcut, hword, ?_, ?_⟩
    · rw [← hstart]
      exact (Except.error.inj h).symm
    · simp [Scanner.flush, hne, hstart]

end

/-- **Strict and lenient reading.** Lenient reading never fails. Where strict reading succeeds, it
finds the same tokens. Where strict reading fails, the error is that of an open string, and it tells
the offset of the atom with that string; lenient reading finds this atom last, up to the end of the
source and with a quote mark in it, and before it what strict reading finds in the source up to there. -/
theorem tokenize_lenient (source : String) :
    ∃ tokens, tokenize source true = .ok tokens ∧
      (∀ others, tokenize source = .ok others → others = tokens) ∧
      ∀ e, tokenize source = .error e → e.kind = .unterminatedString ∧
        ∃ before front last, source = before ++ last.text ∧ e.offset = before.utf8ByteSize ∧
          tokens = front ++ [last] ∧ last.offset = e.offset ∧
          (∃ c ∈ last.text.toList, c = '"' ∨ c = '\'') ∧ tokenize before = .ok front := by
  obtain ⟨tokens, htokens⟩ := exists_tokenize_lenient_eq_ok source
  refine ⟨tokens, htokens, fun others hothers => ?_, fun e he => ?_⟩
  · exact Except.ok.inj ((tokenize_lenient_eq_ok hothers).symm.trans htokens)
  · obtain ⟨text, front, word, hsource, hcut, hword, rfl, hlenient⟩ :=
      exists_openAtom_of_tokenize_eq_error he
    refine ⟨rfl, String.ofList text, front, .atom word (byteLength text), ?_, ?_, ?_, rfl, ?_, ?_⟩
    · rw [← String.toList_inj, hsource]
      simp [Token.atom]
    · exact (utf8ByteSize_ofList text).symm
    · exact Except.ok.inj (htokens.symm.trans hlenient)
    · obtain ⟨c, hc, hmark⟩ := hword.exists_mark
      exact ⟨c, by rwa [Token.toList_text_atom], isQuoteMark_iff.mp hmark⟩
    · exact tokenize_eq_ok_iff_cut.mpr ⟨false, by rwa [String.toList_ofList]⟩

/-- **What an open string is taken for.** Where strict reading fails, the last token of lenient reading
is a symbol, and stands for one, unless it begins with a quote mark and ends in a backslash and the
same mark; then it is taken for a string. -/
theorem tokenize_lenient_last_kind (source : String) :
    ∃ tokens, tokenize source true = .ok tokens ∧
      ∀ e, tokenize source = .error e → ∃ front last, tokens = front ++ [last] ∧
        (¬EndsInGuardedMark last.text.toList →
          last.kind = .symbol ∧ Form.ofAtom last = .symbol last.text) ∧
        (EndsInGuardedMark last.text.toList →
          last.kind = .quoted ∧ Form.ofAtom last = .string last.text) := by
  obtain ⟨tokens, htokens⟩ := exists_tokenize_lenient_eq_ok source
  refine ⟨tokens, htokens, fun e he => ?_⟩
  obtain ⟨text, front, word, -, -, hword, -, hlenient⟩ := exists_openAtom_of_tokenize_eq_error he
  obtain ⟨hquoted, hsymbol⟩ := Token.Kind.ofAtom_openAtom hword
  refine ⟨front, .atom word (byteLength text), Except.ok.inj (htokens.symm.trans hlenient), ?_⟩
  rw [Token.toList_text_atom]
  refine ⟨fun hends => ?_, fun hends => ?_⟩
  · have hkind : (Token.atom word (byteLength text)).kind = .symbol := hsymbol hends
    exact ⟨hkind, by rw [Form.ofAtom, hkind]⟩
  · have hkind : (Token.atom word (byteLength text)).kind = .quoted := hquoted hends
    exact ⟨hkind, by rw [Form.ofAtom, hkind]⟩

/-- A mark behind a backslash does not end a string, but where it ends the source, lenient reading
finds a string that strict reading finds open. -/
theorem tokenize_lenient_guarded_mark :
    tokenize "\"a\\\"" = .error (.unterminatedString "\"a\\\"" 0) ∧
      tokenize "\"a\\\"" true = .ok [⟨.quoted, "\"a\\\"", 0⟩] ∧
      Form.ofSource "\"a\\\"" true = .ok [.string "\"a\\\""] :=
  ⟨rfl, rfl, rfl⟩

end ListLanguage
