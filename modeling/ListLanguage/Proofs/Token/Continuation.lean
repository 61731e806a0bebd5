import ListLanguage.Proofs.Token.Cut

/-!
# Reading on behind a blank

A blank completes the atom before it and leaves nothing pending. So what stands behind a blank is
cut as it would be on its own, only further on: the tokens found there are **shifted** by the
number of bytes before them (`tokenize_append`). Nothing but the offsets depends on the place,
because the scanner looks back no further than its pending atom.
-/

namespace ListLanguage

open Text

namespace Token

/-- The token, found the given number of bytes further on. -/
def shift (bytes : Nat) (t : Token) : Token :=
  { t with offset := t.offset + bytes }

end Token

namespace Scanner

/-- The scanner as it stands when some tokens, the last one first, and a number of bytes have
come before all that it has read. -/
def behind (before : List Token) (bytes : Nat) (s : Scanner) : Scanner where
  tokens := s.tokens.map (Token.shift bytes) ++ before
  start := s.start + bytes
  pending := s.pending
  mark := s.mark

variable (before : List Token) (bytes : Nat) (s : Scanner)

theorem flush_behind : (s.behind before bytes).flush = s.flush.behind before bytes := by
  have hoffset : s.start + bytes + byteLength s.pending = s.start + byteLength s.pending + bytes := by
    omega
  by_cases hpending : s.pending = []
  · simp [flush, behind, offset, hpending]
  · simp [flush, behind, offset, hpending, hoffset, Token.shift, Token.atom]

theorem join_behind (c : Char) : (s.behind before bytes).join c = (s.join c).behind before bytes :=
  rfl

theorem skip_behind (c : Char) : (s.behind before bytes).skip c = (s.skip c).behind before bytes := by
  simp only [skip, flush_behind]
  simp [behind, Nat.add_right_comm]

theorem bracket_behind (kind : Token.Kind) (c : Char) :
    (s.behind before bytes).bracket kind c = (s.bracket kind c).behind before bytes := by
  simp only [bracket, flush_behind]
  simp [behind, Token.shift, Nat.add_right_comm]

/-- **Step**: reading a character does not depend on what came before. -/
theorem step_behind (c : Char) : (s.behind before bytes).step c = (s.step c).behind before bytes := by
  have hmark : (s.behind before bytes).mark = s.mark := rfl
  have hpending : (s.behind before bytes).pending = s.pending := rfl
  cases hs : s.mark with
  | some mark =>
    simp only [step, hmark, hs, hpending, join_behind, flush_behind]
    split_ifs <;> rfl
  | none =>
    simp only [step, hmark, hs, join_behind, skip_behind, bracket_behind]
    split_ifs <;> rfl

/-- **Run**: reading some characters does not depend on what came before. -/
theorem read_behind (cs : List Char) :
    (s.behind before bytes).read cs = (s.read cs).behind before bytes := by
  induction cs generalizing s with
  | nil => rfl
  | cons c cs ih => rw [read_cons, read_cons, step_behind, ih]

/-- A scanner that has completed some tokens of a text stands at the beginning, behind them. -/
theorem completed_eq_behind (text : List Char) (tokens : List Token) :
    completed text tokens = behind tokens.reverse (byteLength text) {} := by
  simp [completed, behind]

end Scanner

/-- Blanks behind a text add no token, and complete its last one. -/
theorem Cut.append_blanks {text blanks : List Char} {tokens : List Token} {tight : Bool}
    (h : Cut text tokens tight) (hne : blanks ≠ []) (hblanks : ∀ c ∈ blanks, isBlank c) :
    Cut (text ++ blanks) tokens false := by
  induction blanks using List.reverseRecOn with
  | nil => exact absurd rfl hne
  | append_singleton front c ih =>
    have hc : isBlank c := hblanks c (by simp)
    rw [← List.append_assoc]
    by_cases hfront : front = []
    · subst hfront
      simpa using h.blank hc
    · exact (ih hfront fun d hd => hblanks d (List.mem_append_left _ hd)).blank hc

/-- Cutting fails at a string that is open at the end, and only there. -/
theorem exists_of_tokenize_eq_error {source : String} {lenient : Bool} {e : LexError}
    (h : tokenize source lenient = .error e) : ∃ start, e = .unterminatedString source start := by
  rw [tokenize] at h
  split at h
  · exact ⟨_, (Except.error.inj h).symm⟩
  · cases h

section Append

variable {a w b : String} {tokens : List Token}

/-- A scanner that has read a source and blanks behind it stands at the beginning, behind the
tokens of the source. -/
theorem Scanner.read_append_blanks (ha : tokenize a = .ok tokens) (hw : w ≠ "")
    (hblank : ∀ c ∈ w.toList, isBlank c) :
    ({} : Scanner).read (a ++ w).toList =
      behind tokens.reverse (byteLength (a ++ w).toList) {} := by
  obtain ⟨tight, hcut⟩ := tokenize_eq_ok_iff_cut.mp ha
  have hne : w.toList ≠ [] := by simpa using hw
  have hread := (hcut.append_blanks hne hblank).read.2.2 rfl
  rw [String.toList_append, hread, completed_eq_behind]

/-- **Reading on behind a blank.** A source behind another one and some blanks is cut into the
tokens of the other one and then its own ones, shifted; or it fails at the place where it fails on
its own, shifted. -/
theorem tokenize_append (ha : tokenize a = .ok tokens) (hw : w ≠ "")
    (hblank : ∀ c ∈ w.toList, isBlank c) :
    tokenize (a ++ w ++ b) =
      match tokenize b with
      | .ok others => .ok (tokens ++ others.map (Token.shift (byteLength (a ++ w).toList)))
      | .error e => .error
          (.unterminatedString (a ++ w ++ b) (e.offset + byteLength (a ++ w).toList)) := by
  have hread : ({} : Scanner).read (a ++ w ++ b).toList =
      Scanner.behind tokens.reverse (byteLength (a ++ w).toList) (({} : Scanner).read b.toList) := by
    rw [String.toList_append, Scanner.read_append, Scanner.read_append_blanks ha hw hblank,
      Scanner.read_behind]
  simp only [tokenize, hread]
  generalize byteLength (a ++ w).toList = bytes
  have hmark : (Scanner.behind tokens.reverse bytes (({} : Scanner).read b.toList)).mark =
      (({} : Scanner).read b.toList).mark := rfl
  rw [hmark]
  cases (({} : Scanner).read b.toList).mark with
  | some mark => rfl
  | none =>
    simp only [Option.isSome_none, Bool.false_and, Bool.false_eq_true, if_false,
      Scanner.flush_behind]
    simp [Scanner.behind]

end Append

end ListLanguage
