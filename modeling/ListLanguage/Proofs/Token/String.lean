import ListLanguage.Proofs.Token.Decomposition

/-!
# Strings on their own

A text **reads alone** if it is cut, on its own, into one token, which is quoted and has that text.
The texts that read alone are the strings (`readsAlone_iff`). A quoted token of lenient reading need
not read alone, but its text is quoted, too (`isQuoted_of_tokenize_eq_ok`).

Joining strings puts their bodies one behind another and double quotes around them. No body ends in
a backslash, so that a body cannot guard the first mark of the next one: what is joined reads alone
exactly if every double quote in each of the bodies stands behind a backslash
(`readsAlone_enquote_iff`).
-/

namespace ListLanguage

open Text

/-! ### Texts that read alone -/

/-- The text of a quoted token is a string. -/
theorem Token.IsShaped.isString {t : Token} (h : t.IsShaped) (hkind : t.kind = .quoted) :
    IsString t.text.toList := by
  cases h with
  | opening hopening => rw [hopening] at hkind; cases hkind
  | closing hclosing => rw [hclosing] at hkind; cases hkind
  | atom htext hatom hofatom =>
    obtain ⟨rfl, hne⟩ := hofatom.quoted_iff.mp hkind
    rw [htext, List.nil_append]
    exact hatom.eq_nil_or_isString.resolve_left hne

/-- A quoted token of a source is a string. -/
theorem isString_of_tokenize_eq_ok {source : String} {tokens : List Token} {t : Token}
    (h : tokenize source = .ok tokens) (ht : t ∈ tokens) (hkind : t.kind = .quoted) :
    IsString t.text.toList := by
  obtain ⟨tight, hcut⟩ := tokenize_eq_ok_iff_cut.mp h
  exact (hcut.decomposition.1.isShaped t ht).isString hkind

/-! ### Quoted tokens -/

namespace Scanner

variable {s : Scanner} {t : Token}

/-- Completing the pending atom adds an atom at most. -/
theorem mem_tokens_flush (ht : t ∈ s.flush.tokens) :
    t ∈ s.tokens ∨ ∃ text offset, t = .atom text offset := by
  simp only [flush] at ht
  split at ht
  · exact .inl ht
  · rcases List.mem_cons.mp ht with rfl | ht
    · exact .inr ⟨_, _, rfl⟩
    · exact .inl ht

/-- **Step**: a character completes brackets and atoms only. -/
theorem mem_tokens_step {c : Char} (ht : t ∈ (s.step c).tokens) :
    t ∈ s.tokens ∨ t.IsBracket ∨ ∃ text offset, t = .atom text offset := by
  cases hs : s.mark with
  | some mark =>
    simp only [step, hs] at ht
    split at ht
    · exact (mem_tokens_flush ht).imp_right .inr
    · exact .inl ht
  | none =>
    simp only [step, hs] at ht
    split_ifs at ht with hopening hclosing hblank hmark
    · rcases List.mem_cons.mp ht with rfl | ht
      · exact .inr (.inl (.inl rfl))
      · exact (mem_tokens_flush ht).imp_right .inr
    · rcases List.mem_cons.mp ht with rfl | ht
      · exact .inr (.inl (.inr rfl))
      · exact (mem_tokens_flush ht).imp_right .inr
    · exact (mem_tokens_flush ht).imp_right .inr
    · exact .inl ht
    · exact .inl ht

/-- **Run**: so do some characters. -/
theorem mem_tokens_read {cs : List Char} (ht : t ∈ (s.read cs).tokens) :
    t ∈ s.tokens ∨ t.IsBracket ∨ ∃ text offset, t = .atom text offset := by
  induction cs generalizing s with
  | nil => exact .inl ht
  | cons c cs ih =>
    rcases ih ht with hstep | hmade
    · exact mem_tokens_step hstep
    · exact .inr hmade

end Scanner

/-- The tokens of a source are brackets and atoms, also if a string is open at its end. -/
theorem isBracket_or_exists_eq_atom {source : String} {lenient : Bool} {tokens : List Token}
    (h : tokenize source lenient = .ok tokens) {t : Token} (ht : t ∈ tokens) :
    t.IsBracket ∨ ∃ text offset, t = .atom text offset := by
  simp only [tokenize] at h
  split at h
  · cases h
  · cases h
    rcases Scanner.mem_tokens_flush (List.mem_reverse.mp ht) with hread | hatom
    · exact (Scanner.mem_tokens_read hread).resolve_left List.not_mem_nil
    · exact .inr hatom

/-- A quoted token has a quoted text, also if its string is open: then a mark behind a backslash is
the last character of the source. -/
theorem isQuoted_of_tokenize_eq_ok {source : String} {lenient : Bool} {tokens : List Token}
    (h : tokenize source lenient = .ok tokens) {t : Token} (ht : t ∈ tokens)
    (hkind : t.kind = .quoted) : isQuoted t.text.toList := by
  rcases isBracket_or_exists_eq_atom h ht with (hopening | hclosing) | ⟨text, offset, rfl⟩
  · rw [hopening] at hkind
    cases hkind
  · rw [hclosing] at hkind
    cases hkind
  · simp only [Token.atom, Token.Kind.ofAtom] at hkind
    split_ifs at hkind with hquoted
    rwa [Token.toList_text_atom]

namespace Text

/-- A text that is cut, on its own, into one token, which is quoted and has that text. -/
def ReadsAlone (stored : String) : Prop :=
  ∃ token, tokenize stored = .ok [token] ∧ token.kind = .quoted ∧ token.text = stored

/-- The texts that read alone are the strings. -/
theorem readsAlone_iff {stored : String} : ReadsAlone stored ↔ IsString stored.toList := by
  constructor
  · rintro ⟨token, htokens, hkind, rfl⟩
    exact isString_of_tokenize_eq_ok htokens (List.mem_singleton_self token) hkind
  · intro h
    have hatom : IsAtom [] stored.toList := ⟨by simp, .inr h, h.ne_nil⟩
    have hkind : .quoted = Token.Kind.ofAtom ([] ++ stored.toList) :=
      (Token.Kind.eq_ofAtom_iff hatom).mpr ⟨by decide, by simp [h.ne_nil], by simp [h.ne_nil]⟩
    refine ⟨.atom ([] ++ stored.toList) 0, tokenize_eq_ok_iff_cut.mpr ⟨stored.toList.isEmpty, ?_⟩,
      hkind.symm, ?_⟩
    · exact Cut.nil.atom hatom
    · simp [Token.atom]

/-! ### Joined strings -/

/-- A mark, a text and the same mark are a string if the text is a body. -/
theorem isString_cons_concat_iff {mark : Char} {body : List Char} :
    IsString (mark :: (body ++ [mark])) ↔
      isQuoteMark mark ∧ IsGuarded mark body ∧ body.getLast? ≠ some '\\' := by
  constructor
  · rintro ⟨other, others, heq, hmark, hbody, hlast⟩
    obtain ⟨rfl, hrest⟩ := List.cons.inj heq
    obtain ⟨rfl, -⟩ := List.append_inj' hrest rfl
    exact ⟨hmark, hbody, hlast⟩
  · rintro ⟨hmark, hbody, hlast⟩
    exact ⟨mark, body, rfl, hmark, hbody, hlast⟩

/-- What a string holds does not end in a backslash. -/
theorem IsString.getLast?_unquote {stored : String} (h : IsString stored.toList) :
    (unquote stored).toList.getLast? ≠ some '\\' := by
  obtain ⟨mark, body, hstored, -, -, hlast⟩ := h
  simpa [unquote, hstored] using hlast

/-- Behind a text that does not end in a backslash, marks have to be guarded anew. -/
theorem isGuarded_append_iff {mark : Char} {as bs : List Char} (has : as.getLast? ≠ some '\\') :
    IsGuarded mark (as ++ bs) ↔ IsGuarded mark as ∧ IsGuarded mark bs := by
  constructor
  · intro h
    refine ⟨fun before after heq => h before (after ++ bs) (by simp [heq]),
      fun before after heq => ?_⟩
    have hlast := h (as ++ before) after (by simp [heq])
    rw [List.getLast?_append] at hlast
    cases hbefore : before.getLast? with
    | none =>
      rw [hbefore, Option.none_or] at hlast
      exact absurd hlast has
    | some c => rwa [hbefore, Option.some_or] at hlast
  · rintro ⟨hguardedas, hguardedbs⟩ before after heq
    rcases List.append_eq_append_iff.mp heq with ⟨front, rfl, hbs⟩ | ⟨rest, rfl, hrest⟩
    · -- the mark lies in the second text
      have hlast := hguardedbs front after hbs
      rw [List.getLast?_append, hlast, Option.some_or]
    · cases rest with
      | nil =>
        -- the mark is the first of the second text
        have hlast := hguardedbs [] after hrest.symm
        cases hlast
      | cons c rest =>
        obtain ⟨rfl, -⟩ := List.cons.inj hrest
        exact hguardedas before rest rfl

/-- Bodies one behind another are guarded if each of them is, and do not end in a backslash. -/
theorem isGuarded_flatMap_iff {α : Type} {items : List α} (mark : Char) (body : α → List Char)
    (h : ∀ item ∈ items, (body item).getLast? ≠ some '\\') :
    (items.flatMap body).getLast? ≠ some '\\' ∧
      (IsGuarded mark (items.flatMap body) ↔ ∀ item ∈ items, IsGuarded mark (body item)) := by
  induction items with
  | nil => simp [isGuarded_nil]
  | cons item items ih =>
    obtain ⟨hitem, hitems⟩ := List.forall_mem_cons.mp h
    obtain ⟨hlast, hguarded⟩ := ih hitems
    rw [List.flatMap_cons, isGuarded_append_iff hitem, hguarded, List.forall_mem_cons]
    refine ⟨?_, Iff.rfl⟩
    rw [List.getLast?_append]
    cases hrest : (items.flatMap body).getLast? with
    | none => rwa [Option.none_or]
    | some c => rwa [Option.some_or, ← hrest]

/-- **What is joined from strings** reads alone exactly if every double quote that one of them holds
stands behind a backslash. -/
theorem readsAlone_enquote_iff {pieces : List String} (h : ∀ piece ∈ pieces, IsString piece.toList) :
    ReadsAlone (enquote (String.join (pieces.map unquote))) ↔
      ∀ piece ∈ pieces, IsGuarded '"' (unquote piece).toList := by
  obtain ⟨hlast, hguarded⟩ := isGuarded_flatMap_iff '"' (fun piece => (unquote piece).toList)
    fun piece hpiece => (h piece hpiece).getLast?_unquote
  rw [readsAlone_iff, toList_enquote, isString_cons_concat_iff, String.toList_join,
    List.flatMap_map, hguarded]
  simp [isQuoteMark, hlast]

end Text

end ListLanguage
