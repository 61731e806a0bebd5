import ListLanguage.Proofs.Form.Limit
import ListLanguage.Proofs.Token.Continuation

/-!
# Reading forms behind other forms

Once all lists are closed, a reader goes on as if it were at the beginning. So tokens behind the
tokens of some forms are read as they would be on their own: the same forms come behind the forms
that were read before (`ofTokens_append_shift`), or the same fault is found
(`ofTokens_append_shift_error`). Only the offset that the fault's message gives is another one.
-/

namespace ListLanguage

open Form

/-- What a token adds to a form does not depend on its place. -/
@[simp]
theorem Token.mark_shift (bytes : Nat) (t : Token) : (t.shift bytes).mark = t.mark := rfl

/-- Two faults in reading forms that differ in the place at most. -/
def ParseError.Alike (e e' : ParseError) : Prop :=
  e'.kind = e.kind ∧ e'.found = e.found

namespace Reader

variable {limit : Nat} {r r' s : Reader} {t : Token} {tokens : List Token} {e : ParseError}

/-- **Step**: whether a token is read depends on the number of open lists only. -/
theorem step_shift_eq_ok (bytes : Nat) (h : r.step limit t = .ok s) (hdepth : r'.depth = r.depth) :
    ∃ s', r'.step limit (t.shift bytes) = .ok s' ∧ s'.depth = s.depth := by
  obtain ⟨hmark, hroom, rfl⟩ | ⟨hmark, elements, outer, hopen, rfl⟩ | ⟨form, hmark, rfl⟩ :=
    step_eq_ok h
  · rw [← t.mark_shift bytes] at hmark
    refine ⟨_, by rw [step_of_mark_opening hmark, if_neg (by omega)], ?_⟩
    simpa [depth] using hdepth
  · rw [← t.mark_shift bytes] at hmark
    have hlength : r'.enclosing.length = outer.length + 1 := by
      simpa [depth, hopen] using hdepth
    obtain ⟨elements', outer', hopen'⟩ := List.exists_cons_of_length_eq_add_one hlength
    refine ⟨_, step_of_mark_closing_cons hmark hopen', ?_⟩
    rw [depth_add, depth_add]
    simpa [depth, hopen'] using hlength
  · rw [← t.mark_shift bytes] at hmark
    exact ⟨_, step_of_mark_leaf hmark, by rw [depth_add, depth_add, hdepth]⟩

/-- **Step**: so does the fault that a token is, but for the token's offset. -/
theorem step_shift_eq_error (bytes : Nat) (h : r.step limit t = .error e)
    (hdepth : r'.depth = r.depth) :
    ∃ e', r'.step limit (t.shift bytes) = .error e' ∧ e.Alike e' := by
  obtain ⟨s, hs⟩ | ⟨hmark, hroom, hs⟩ | ⟨hmark, hopen, hs⟩ := step_eq_error_or r limit t
  · rw [hs] at h
    cases h
  · rw [hs] at h
    cases h
    rw [← t.mark_shift bytes] at hmark
    rw [step_of_mark_opening hmark, if_pos (by omega)]
    exact ⟨_, rfl, rfl, rfl⟩
  · rw [hs] at h
    cases h
    rw [← t.mark_shift bytes] at hmark
    have hopen' : r'.enclosing = [] := List.length_eq_zero_iff.mp (hdepth.trans hopen)
    exact ⟨_, step_of_mark_closing_nil hmark hopen', rfl, rfl⟩

/-- Reading stops at the first fault: at the first token, or behind it. -/
theorem read_cons_eq_error (h : r.read limit (t :: tokens) = .error e) :
    r.step limit t = .error e ∨ ∃ s, r.step limit t = .ok s ∧ s.read limit tokens = .error e := by
  rw [read_cons] at h
  cases hstep : r.step limit t with
  | error e' =>
    rw [hstep] at h
    exact .inl h
  | ok s =>
    rw [hstep] at h
    exact .inr ⟨s, rfl, h⟩

/-- **Run**: whether tokens are read depends on the number of open lists only. -/
theorem read_shift_eq_ok (bytes : Nat) (h : r.read limit tokens = .ok s)
    (hdepth : r'.depth = r.depth) :
    ∃ s', r'.read limit (tokens.map (Token.shift bytes)) = .ok s' ∧ s'.depth = s.depth := by
  induction tokens generalizing r r' with
  | nil =>
    cases h
    exact ⟨r', rfl, hdepth⟩
  | cons t tokens ih =>
    obtain ⟨middle, hstep, hread⟩ := read_cons_eq_ok h
    obtain ⟨middle', hstep', hmiddle⟩ := step_shift_eq_ok bytes hstep hdepth
    rw [List.map_cons, read_cons, hstep']
    exact ih hread hmiddle

/-- **Run**: so does the fault that is found, but for the offset that its message gives. -/
theorem read_shift_eq_error (bytes : Nat) (h : r.read limit tokens = .error e)
    (hdepth : r'.depth = r.depth) :
    ∃ e', r'.read limit (tokens.map (Token.shift bytes)) = .error e' ∧ e.Alike e' := by
  induction tokens generalizing r r' with
  | nil => cases h
  | cons t tokens ih =>
    rw [List.map_cons, read_cons]
    rcases read_cons_eq_error h with hstep | ⟨middle, hstep, hread⟩
    · obtain ⟨e', hstep', halike⟩ := step_shift_eq_error bytes hstep hdepth
      exact ⟨e', by rw [hstep']; rfl, halike⟩
    · obtain ⟨middle', hstep', hmiddle⟩ := step_shift_eq_ok bytes hstep hdepth
      rw [hstep']
      exact ih hread hmiddle

/-- At the end, a list that is still open is the fault. -/
theorem finish_eq_error_iff : r.finish = .error e ↔ r.depth ≠ 0 ∧ e = .unterminatedList r.depth := by
  rw [finish]
  cases hopen : r.enclosing with
  | nil => simp [depth, hopen]
  | cons elements outer => simp [depth, hopen, eq_comm]

end Reader

namespace Form

open Reader

variable {limit : Nat} {tokens others : List Token} {forms rest : List Form} {e : ParseError}

/-- Tokens behind the tokens of some forms are read as on their own: their forms come behind the
other ones. -/
theorem ofTokens_append_shift (bytes : Nat) (h : ofTokens tokens limit = .ok forms)
    (hothers : ofTokens others limit = .ok rest) :
    ofTokens (tokens ++ others.map (Token.shift bytes)) limit = .ok (forms ++ rest) := by
  have houtline := outlineAll_of_ofTokens_eq_ok h
  have hrest := outlineAll_of_ofTokens_eq_ok hothers
  have hmarks : (others.map (Token.shift bytes)).map Token.mark = others.map Token.mark := by
    rw [List.map_map]
    exact List.map_congr_left fun t _ => t.mark_shift bytes
  refine ofTokens_eq_ok_of_outlineAll ?_ fun form hform => ?_
  · rw [outlineAll_append, List.map_append, houtline, hrest, hmarks]
  · rcases List.mem_append.mp hform with hform | hform
    · exact depth_le_of_ofTokens_eq_ok h form hform
    · exact depth_le_of_ofTokens_eq_ok hothers form hform

/-- A fault in tokens is found behind the tokens of some forms, too. -/
theorem ofTokens_append_shift_error (bytes : Nat) (h : ofTokens tokens limit = .ok forms)
    (hothers : ofTokens others limit = .error e) :
    ∃ e', ofTokens (tokens ++ others.map (Token.shift bytes)) limit = .error e' ∧ e.Alike e' := by
  have hread := ofTokens_eq_ok_iff_read.mp h
  have hdepth : (⟨forms.reverse, []⟩ : Reader).depth = ({} : Reader).depth := rfl
  rw [ofTokens] at hothers ⊢
  rw [read_append, hread]
  cases hrest : ({} : Reader).read limit others with
  | error e' =>
    -- the fault is a token
    rw [hrest] at hothers
    cases hothers
    obtain ⟨e', hread', halike⟩ := read_shift_eq_error bytes hrest hdepth
    exact ⟨e', by simp only [Except.bind, hread']; rfl, halike⟩
  | ok s =>
    -- a list is open at the end
    rw [hrest] at hothers
    obtain ⟨s', hread', hs⟩ := read_shift_eq_ok bytes hrest hdepth
    obtain ⟨hopen, rfl⟩ := finish_eq_error_iff.mp hothers
    refine ⟨.unterminatedList s'.depth, ?_, rfl, rfl⟩
    simp only [Except.bind, hread']
    exact finish_eq_error_iff.mpr ⟨hs ▸ hopen, rfl⟩

end Form

end ListLanguage
