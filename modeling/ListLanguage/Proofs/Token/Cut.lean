import ListLanguage.Proofs.Token.Atom

/-!
# Cutting from left to right

`Cut text tokens tight` says that a text can be put together from left to right out of blanks,
brackets and atoms, and that the brackets and atoms are the tokens. An atom without a string
is **tight**: what follows it at once would belong to it, so no atom may follow it at once.

A scanner finds every cut (`Cut.read`), and what it finds is a cut, up to the pending atom
(`HasRead`). So strict reading succeeds exactly on the texts that have a cut, and a text has at
most one (`tokenize_eq_ok_iff_cut`).
-/

namespace ListLanguage

open Text

/-- A text put together from blanks, brackets and atoms, with its tokens; the flag says whether
the text ends in an atom that could go on. -/
inductive Cut : List Char → List Token → Bool → Prop where
  | nil : Cut [] [] false
  | blank {text : List Char} {tokens : List Token} {tight : Bool} {c : Char} :
    Cut text tokens tight → isBlank c → Cut (text ++ [c]) tokens false
  | opening {text : List Char} {tokens : List Token} {tight : Bool} :
    Cut text tokens tight →
      Cut (text ++ ['(']) (tokens ++ [⟨.opening, "(", byteLength text⟩]) false
  | closing {text : List Char} {tokens : List Token} {tight : Bool} :
    Cut text tokens tight →
      Cut (text ++ [')']) (tokens ++ [⟨.closing, ")", byteLength text⟩]) false
  | atom {text : List Char} {tokens : List Token} {run string : List Char} :
    Cut text tokens false → IsAtom run string →
      Cut (text ++ (run ++ string)) (tokens ++ [.atom (run ++ string) (byteLength text)])
        string.isEmpty

namespace Scanner

variable {s : Scanner} {c : Char}

/-! ### Steps outside strings -/

/-- Completing the pending atom does not move the scanner. -/
@[simp]
theorem start_flush (s : Scanner) : s.flush.start = s.offset := rfl

theorem step_opening (hs : s.mark = none) : s.step '(' = s.bracket .opening '(' := by
  simp [step, hs]

theorem step_closing (hs : s.mark = none) : s.step ')' = s.bracket .closing ')' := by
  simp [step, hs]

/-- A blank is no bracket. -/
theorem step_of_isBlank (hs : s.mark = none) (hc : isBlank c) : s.step c = s.skip c := by
  have hopening : c ≠ '(' := by
    rintro rfl
    exact absurd hc (by decide)
  have hclosing : c ≠ ')' := by
    rintro rfl
    exact absurd hc (by decide)
  simp [step, hs, hopening, hclosing, hc]

/-- The state of a scanner that has completed some tokens of a text. -/
def completed (text : List Char) (tokens : List Token) : Scanner :=
  ⟨tokens.reverse, byteLength text, [], none⟩

end Scanner

/-! ### Every cut is found -/

open Scanner

/-- A scanner that reads a text with a cut has completed the tokens of the cut, but for the last
one if it could go on. -/
theorem Cut.read {text : List Char} {tokens : List Token} {tight : Bool}
    (h : Cut text tokens tight) :
    (({} : Scanner).read text).mark = none ∧
      (({} : Scanner).read text).flush = completed text tokens ∧
      (tight = false → ({} : Scanner).read text = completed text tokens) := by
  induction h with
  | nil => exact ⟨rfl, rfl, fun _ => rfl⟩
  | blank hcut hc ih =>
    obtain ⟨hmark, hflush, -⟩ := ih
    rw [read_append, read_cons, read_nil, step_of_isBlank hmark hc, skip, hflush]
    simp [completed, flush, offset]
  | opening hcut ih =>
    obtain ⟨hmark, hflush, -⟩ := ih
    rw [read_append, read_cons, read_nil, step_opening hmark, bracket, hflush]
    simp [completed, flush, offset]
  | closing hcut ih =>
    obtain ⟨hmark, hflush, -⟩ := ih
    rw [read_append, read_cons, read_nil, step_closing hmark, bracket, hflush]
    simp [completed, flush, offset]
  | @atom text tokens run string hcut hatom ih =>
    obtain ⟨-, -, hread⟩ := ih
    rw [read_append, hread rfl, read_append, read_run rfl hatom.plain]
    rcases hatom.eq_nil_or_isString with rfl | hstring
    · -- a run alone stays pending until something completes it
      have hrun : run ≠ [] := by simpa using hatom.ne_nil
      simp [completed, flush, offset, hrun]
    · have hne : string ≠ [] := hstring.ne_nil
      rw [read_string rfl hstring]
      simp [completed, flush, offset, hne, Nat.add_comm]

/-! ### What is found is a cut -/

/-- What a scanner has read: a text with a cut into its tokens, and then the pending atom, which
is a run of plain characters or stands inside a string. -/
structure HasRead (s : Scanner) (consumed : List Char) : Prop where
  exists_cut : ∃ text, consumed = text ++ s.pending.reverse ∧ Cut text s.tokens.reverse false ∧
    s.start = byteLength text
  plain_of_mark_eq_none : s.mark = none → ∀ c ∈ s.pending, IsPlain c
  guarded_of_mark_eq_some : ∀ mark, s.mark = some mark → isQuoteMark mark ∧
    ∃ run body, s.pending.reverse = run ++ mark :: body ∧ (∀ c ∈ run, IsPlain c) ∧
      IsGuarded mark body

namespace HasRead

variable {s : Scanner} {c : Char} {consumed : List Char}

theorem nil : HasRead {} [] where
  exists_cut := ⟨[], rfl, .nil, rfl⟩
  plain_of_mark_eq_none _ c hc := absurd hc List.not_mem_nil
  guarded_of_mark_eq_some mark hmark := by cases hmark

/-- Outside strings, the pending atom is complete as it stands. -/
theorem cut_flush (h : HasRead s consumed) (hs : s.mark = none) :
    (∃ tight, Cut consumed s.flush.tokens.reverse tight) ∧ s.offset = byteLength consumed := by
  obtain ⟨text, rfl, hcut, hstart⟩ := h.exists_cut
  have hoffset : s.offset = byteLength (text ++ s.pending.reverse) := by
    simp [offset, hstart]
  refine ⟨?_, hoffset⟩
  by_cases hpending : s.pending = []
  · refine ⟨false, ?_⟩
    simpa [flush, hpending] using hcut
  · have hatom : IsAtom s.pending.reverse [] :=
      ⟨fun c hc => h.plain_of_mark_eq_none hs c (List.mem_reverse.mp hc), .inl rfl,
        by simpa using hpending⟩
    refine ⟨true, ?_⟩
    simpa [flush, hpending, hstart] using hcut.atom hatom

/-- A scanner that has just completed what it read is between atoms. -/
theorem of_cut {tokens : List Token} {start : Nat} (hcut : Cut consumed tokens.reverse false)
    (hstart : start = byteLength consumed) : HasRead ⟨tokens, start, [], none⟩ consumed where
  exists_cut := ⟨consumed, by simp, hcut, hstart⟩
  plain_of_mark_eq_none _ c hc := absurd hc List.not_mem_nil
  guarded_of_mark_eq_some mark hmark := by cases hmark

theorem skip (h : HasRead s consumed) (hs : s.mark = none) (hc : isBlank c) :
    HasRead (s.skip c) (consumed ++ [c]) := by
  obtain ⟨⟨tight, hcut⟩, hoffset⟩ := h.cut_flush hs
  exact of_cut (hcut.blank hc) (by simp [hoffset])

theorem bracket_opening (h : HasRead s consumed) (hs : s.mark = none) :
    HasRead (s.bracket .opening '(') (consumed ++ ['(']) := by
  obtain ⟨⟨tight, hcut⟩, hoffset⟩ := h.cut_flush hs
  refine of_cut ?_ (by simp [hoffset])
  rw [List.reverse_cons, start_flush, hoffset]
  exact hcut.opening

theorem bracket_closing (h : HasRead s consumed) (hs : s.mark = none) :
    HasRead (s.bracket .closing ')') (consumed ++ [')']) := by
  obtain ⟨⟨tight, hcut⟩, hoffset⟩ := h.cut_flush hs
  refine of_cut ?_ (by simp [hoffset])
  rw [List.reverse_cons, start_flush, hoffset]
  exact hcut.closing

/-- Outside strings, a plain character or a quote mark joins the pending atom. -/
theorem join (h : HasRead s consumed) (hs : s.mark = none) (hc : IsPlain c) :
    HasRead (s.join c) (consumed ++ [c]) := by
  obtain ⟨text, rfl, hcut, hstart⟩ := h.exists_cut
  refine ⟨⟨text, by simp [Scanner.join], hcut, hstart⟩, fun _ d hd => ?_, fun mark hmark => ?_⟩
  · rcases List.mem_cons.mp hd with rfl | hd
    · exact hc
    · exact h.plain_of_mark_eq_none hs d hd
  · rw [show (s.join c).mark = s.mark from rfl, hs] at hmark
    cases hmark

theorem open_string (h : HasRead s consumed) (hs : s.mark = none) (hc : isQuoteMark c) :
    HasRead { s.join c with mark := some c } (consumed ++ [c]) := by
  obtain ⟨text, rfl, hcut, hstart⟩ := h.exists_cut
  refine ⟨⟨text, by simp [Scanner.join], hcut, hstart⟩, fun hnone => (nomatch hnone),
    fun mark hmark => ?_⟩
  cases hmark
  refine ⟨hc, s.pending.reverse, [], by simp [Scanner.join], fun d hd => ?_, isGuarded_nil c⟩
  exact h.plain_of_mark_eq_none hs d (List.mem_reverse.mp hd)

/-- Inside a string, the last pending character is the last of the body or the opening mark. -/
theorem getLast?_body {run body : List Char} {mark : Char}
    (hpending : s.pending.reverse = run ++ mark :: body) :
    s.pending.head? = some (body.getLast?.getD mark) := by
  rw [← List.getLast?_reverse, hpending, List.getLast?_append, List.getLast?_cons]
  rfl

/-- Inside a string, a character that does not end the string joins its body. -/
theorem join_string {mark : Char} (h : HasRead s consumed) (hs : s.mark = some mark)
    (hc : ¬(c = mark ∧ s.pending.head? ≠ some '\\')) :
    HasRead (s.join c) (consumed ++ [c]) := by
  obtain ⟨text, rfl, hcut, hstart⟩ := h.exists_cut
  obtain ⟨hmark, run, body, hpending, hrun, hbody⟩ := h.guarded_of_mark_eq_some mark hs
  have hjoin : (s.join c).mark = some mark := hs
  refine ⟨⟨text, by simp [Scanner.join], hcut, hstart⟩, fun hnone => ?_, fun other hother => ?_⟩
  · rw [hjoin] at hnone
    cases hnone
  · rw [hjoin] at hother
    cases hother
    refine ⟨hmark, run, body ++ [c], by simp [Scanner.join, hpending], hrun, ?_⟩
    refine isGuarded_concat.mpr ⟨hbody, fun hcmark => ?_⟩
    -- the mark does not end the string, so it stands behind a backslash
    have hhead : s.pending.head? = some '\\' := not_not.mp fun hne => hc ⟨hcmark, hne⟩
    rw [getLast?_body hpending] at hhead
    cases hlast : body.getLast? with
    | none =>
      rw [hlast] at hhead
      exact absurd (Option.some.inj hhead) (isQuoteMark.ne hmark).2.2.2
    | some d =>
      rw [hlast] at hhead
      exact hhead

/-- Inside a string, the mark without a backslash completes the atom. -/
theorem close_string {mark : Char} (h : HasRead s consumed) (hs : s.mark = some mark)
    (hbackslash : s.pending.head? ≠ some '\\') :
    HasRead (s.join mark).flush (consumed ++ [mark]) := by
  obtain ⟨text, rfl, hcut, hstart⟩ := h.exists_cut
  obtain ⟨hmark, run, body, hpending, hrun, hbody⟩ := h.guarded_of_mark_eq_some mark hs
  have hlast : body.getLast? ≠ some '\\' := by
    intro hlast
    rw [getLast?_body hpending, hlast] at hbackslash
    exact hbackslash rfl
  have hstring : IsString (mark :: (body ++ [mark])) := ⟨mark, body, rfl, hmark, hbody, hlast⟩
  have hatom : IsAtom run (mark :: (body ++ [mark])) := ⟨hrun, .inr hstring, by simp⟩
  have hnext := hcut.atom hatom
  refine of_cut ?_ ?_
  · simpa [Scanner.join, hpending, hstart] using hnext
  · simp [Scanner.join, offset, hstart, Nat.add_comm]

/-- **Step**: what a scanner has read goes on with the character that it reads. -/
theorem step (h : HasRead s consumed) (c : Char) : HasRead (s.step c) (consumed ++ [c]) := by
  cases hs : s.mark with
  | some mark =>
    simp only [Scanner.step, hs]
    split
    · rename_i hend
      rw [hend.1]
      exact h.close_string hs hend.2
    · rename_i hend
      exact h.join_string hs hend
  | none =>
    by_cases hopening : c = '('
    · rw [hopening, step_opening hs]
      exact h.bracket_opening hs
    by_cases hclosing : c = ')'
    · rw [hclosing, step_closing hs]
      exact h.bracket_closing hs
    by_cases hblank : isBlank c
    · rw [step_of_isBlank hs hblank]
      exact h.skip hs hblank
    by_cases hmark : isQuoteMark c
    · rw [step_of_isQuoteMark hs hmark]
      exact h.open_string hs hmark
    · have hplain : IsPlain c := ⟨by simpa using hblank, hopening, hclosing, by simpa using hmark⟩
      rw [step_of_isPlain hs hplain]
      exact h.join hs hplain

/-- **Run**: a scanner has read the characters that it was given. -/
theorem read (h : HasRead s consumed) (cs : List Char) : HasRead (s.read cs) (consumed ++ cs) := by
  induction cs generalizing s consumed with
  | nil => simpa using h
  | cons c cs ih =>
    rw [read_cons, ← List.singleton_append, ← List.append_assoc]
    exact ih (h.step c)

end HasRead

/-- Strict reading succeeds with the tokens of a cut, and only with those. -/
theorem tokenize_eq_ok_iff_cut {source : String} {tokens : List Token} :
    tokenize source = .ok tokens ↔ ∃ tight, Cut source.toList tokens tight := by
  rw [tokenize]
  constructor
  · intro h
    have hread := HasRead.nil.read source.toList
    rw [List.nil_append] at hread
    cases hmark : (({} : Scanner).read source.toList).mark with
    | some mark => simp [hmark] at h
    | none =>
      simp only [hmark, Option.isSome_none, Bool.false_and, Bool.false_eq_true, if_false,
        Except.ok.injEq] at h
      rw [← h]
      exact (hread.cut_flush hmark).1
  · rintro ⟨tight, h⟩
    obtain ⟨hmark, hflush, -⟩ := h.read
    simp [hmark, hflush, completed]

end ListLanguage
