import ListLanguage.Proofs.Text.Bytes
import ListLanguage.Proofs.Token.Cut

/-!
# Decompositions of a source

A **decomposition** of a source is a row of tokens that lie in it, in order and without overlap,
such that only blanks lie outside them. Each token is a bracket or an atom, and of two tokens
that touch, one is a bracket or the first one ends with its string.

Nothing here says how to find the tokens. But the last character of a source with a decomposition
is a blank outside the tokens or the end of the last one, and without it, or without that token,
there is a decomposition of what is left. So a decomposition is a cut (`Decomposition.exists_cut`),
and strict reading finds the decomposition of a source whenever there is one.
-/

namespace ListLanguage

open Text

namespace Token

/-- The byte offset behind a token. -/
def stop (t : Token) : Nat :=
  t.offset + byteLength t.text.toList

/-- A token that is a bracket. -/
def IsBracket (t : Token) : Prop :=
  t.kind = .opening ∨ t.kind = .closing

/-- A token that is an atom with a string. -/
def EndsInString (t : Token) : Prop :=
  ∃ run string, t.text.toList = run ++ string ∧ (∀ c ∈ run, IsPlain c) ∧ IsString string

/-- A token whose text and kind fit each other: a bracket, or an atom. -/
inductive IsShaped (t : Token) : Prop where
  | opening : t.kind = .opening → t.text = "(" → IsShaped t
  | closing : t.kind = .closing → t.text = ")" → IsShaped t
  | atom {run string : List Char} : t.text.toList = run ++ string → IsAtom run string →
    t.kind.IsOfAtom run string → IsShaped t

/-- A token whose text is that of the source from the token's byte offset on. -/
def LiesIn (t : Token) (source : List Char) : Prop :=
  ∃ before after, source = before ++ (t.text.toList ++ after) ∧ byteLength before = t.offset

/-- Two tokens, one before the other, that may stand as they do: if they touch, one of them is a
bracket, or a string separates them. -/
def MayPrecede (t u : Token) : Prop :=
  t.stop = u.offset → t.IsBracket ∨ u.IsBracket ∨ t.EndsInString

variable {t u : Token} {source : List Char}

theorem IsShaped.text_ne_nil (h : t.IsShaped) : t.text.toList ≠ [] := by
  cases h with
  | opening hkind htext => simp [htext]
  | closing hkind htext => simp [htext]
  | atom htext hatom hkind => exact htext ▸ hatom.ne_nil

theorem IsShaped.offset_lt_stop (h : t.IsShaped) : t.offset < t.stop := by
  have := byteLength_pos h.text_ne_nil
  rw [stop]
  omega

theorem LiesIn.stop_le (h : t.LiesIn source) : t.stop ≤ byteLength source := by
  obtain ⟨before, after, rfl, hoffset⟩ := h
  simp only [stop, byteLength_append]
  omega

theorem LiesIn.append (h : t.LiesIn source) (more : List Char) : t.LiesIn (source ++ more) := by
  obtain ⟨before, after, rfl, hoffset⟩ := h
  exact ⟨before, after ++ more, by simp, hoffset⟩

/-- A token that stops early enough lies in the first part of a source. -/
theorem LiesIn.of_append {front rest : List Char} (h : t.LiesIn (front ++ rest))
    (hstop : t.stop ≤ byteLength front) : t.LiesIn front := by
  obtain ⟨before, after, hsource, hoffset⟩ := h
  rw [← List.append_assoc] at hsource
  have hle : byteLength (before ++ t.text.toList) ≤ byteLength front := by
    rw [byteLength_append, hoffset]
    exact hstop
  obtain ⟨mid, hfront, -⟩ := exists_append_of_byteLength_le hsource.symm hle
  exact ⟨before, mid, by rw [hfront, List.append_assoc], hoffset⟩

/-- A token over the last character ends the source. -/
theorem LiesIn.exists_eq_append {front : List Char} {c : Char} (h : t.LiesIn (front ++ [c]))
    (hc : byteLength front < t.stop) :
    ∃ rest, front ++ [c] = rest ++ t.text.toList ∧ byteLength rest = t.offset := by
  obtain ⟨rest, after, hsource, hoffset⟩ := h
  have hafter : after = [] := by
    rcases List.eq_nil_or_concat' after with rfl | ⟨middle, last, rfl⟩
    · rfl
    · rw [← List.append_assoc, ← List.append_assoc] at hsource
      have hfront := (List.append_inj' hsource rfl).1
      rw [stop, ← hoffset, hfront] at hc
      simp only [byteLength_append] at hc
      omega
  subst hafter
  exact ⟨rest, by simpa using hsource, hoffset⟩

/-- A plain run holds no string, so an atom without a string does not end in one. -/
theorem not_endsInString_of_plain (h : ∀ c ∈ t.text.toList, IsPlain c) : ¬t.EndsInString := by
  rintro ⟨run, string, htext, -, hstring⟩
  obtain ⟨mark, hmem, hmark⟩ := hstring.exists_mark
  have hplain := h mark (htext ▸ List.mem_append_right run hmem)
  simp [hplain.2.2.2] at hmark

end Token

/-- A **decomposition** of a source into tokens. -/
structure Decomposition (source : List Char) (tokens : List Token) : Prop where
  /-- The tokens are found in the source where they say. -/
  liesIn : ∀ t ∈ tokens, t.LiesIn source
  /-- The tokens stand in order and do not overlap. -/
  ordered : tokens.Pairwise fun t u => t.offset < u.offset ∧ t.stop ≤ u.offset
  /-- A character that lies in no token is blank. -/
  covered : ∀ before c after, source = before ++ c :: after →
    isBlank c ∨ ∃ t ∈ tokens, t.offset ≤ byteLength before ∧ byteLength before < t.stop
  isShaped : ∀ t ∈ tokens, t.IsShaped
  separated : tokens.Pairwise Token.MayPrecede

/-! ### Cuts are decompositions -/

namespace Decomposition

variable {source : List Char} {tokens : List Token} {t : Token}

theorem nil : Decomposition [] [] := by
  constructor <;> simp

theorem append_blank (h : Decomposition source tokens) {c : Char} (hc : isBlank c) :
    Decomposition (source ++ [c]) tokens where
  liesIn t ht := (h.liesIn t ht).append [c]
  ordered := h.ordered
  covered before d after heq := by
    rcases List.eq_nil_or_concat' after with rfl | ⟨front, last, rfl⟩
    · have hd := (List.append_inj' heq rfl).2
      rw [← (List.cons.inj hd).1]
      exact .inl hc
    · have heq' : source ++ [c] = (before ++ d :: front) ++ [last] := by simpa using heq
      exact h.covered before d front (List.append_inj' heq' rfl).1
  isShaped := h.isShaped
  separated := h.separated

theorem append_token (h : Decomposition source tokens) (hoffset : t.offset = byteLength source)
    (hshaped : t.IsShaped) (hseparated : ∀ u ∈ tokens, u.MayPrecede t) :
    Decomposition (source ++ t.text.toList) (tokens ++ [t]) where
  liesIn u hu := by
    rcases List.mem_append.mp hu with hu | hu
    · exact (h.liesIn u hu).append _
    · rw [List.mem_singleton.mp hu]
      exact ⟨source, [], by simp, hoffset.symm⟩
  ordered := by
    rw [List.pairwise_append]
    refine ⟨h.ordered, List.pairwise_singleton _ _, fun u hu v hv => ?_⟩
    rw [List.mem_singleton.mp hv, hoffset]
    have hstop := (h.liesIn u hu).stop_le
    exact ⟨Nat.lt_of_lt_of_le (h.isShaped u hu).offset_lt_stop hstop, hstop⟩
  covered before c after heq := by
    -- the character lies in the new token or before it
    rcases List.append_eq_append_iff.mp heq with ⟨mid, hbefore, htext⟩ | ⟨mid, hsource, hcons⟩
    · refine .inr ⟨t, by simp, ?_⟩
      have := c.utf8Size_pos
      rw [Token.stop, hoffset, hbefore, htext]
      simp only [byteLength_append, byteLength_cons]
      omega
    · cases mid with
      | nil =>
        refine .inr ⟨t, by simp, ?_⟩
        have hbefore : before = source := by simpa using hsource.symm
        rw [hbefore, ← hoffset]
        exact ⟨Nat.le_refl _, hshaped.offset_lt_stop⟩
      | cons d mid =>
        obtain ⟨rfl, -⟩ := List.cons.inj hcons
        rcases h.covered before c mid hsource with hblank | ⟨u, hu, hcover⟩
        · exact .inl hblank
        · exact .inr ⟨u, List.mem_append_left _ hu, hcover⟩
  isShaped u hu := by
    rcases List.mem_append.mp hu with hu | hu
    · exact h.isShaped u hu
    · rw [List.mem_singleton.mp hu]
      exact hshaped
  separated := by
    rw [List.pairwise_append]
    refine ⟨h.separated, List.pairwise_singleton _ _, fun u hu v hv => ?_⟩
    rw [List.mem_singleton.mp hv]
    exact hseparated u hu

/-- Behind a bracket anything may follow. -/
theorem append_bracket (h : Decomposition source tokens) {c : Char}
    (hoffset : t.offset = byteLength source) (hshaped : t.IsShaped) (hbracket : t.IsBracket)
    (htext : t.text.toList = [c]) :
    Decomposition (source ++ [c]) (tokens ++ [t]) ∧
      ∀ u ∈ tokens ++ [t], u.stop = byteLength (source ++ [c]) → u.IsBracket ∨ u.EndsInString := by
  have hnext := h.append_token hoffset hshaped fun u _ _ => .inr (.inl hbracket)
  rw [htext] at hnext
  refine ⟨hnext, fun u hu hstop => ?_⟩
  rcases List.mem_append.mp hu with hu | hu
  · have := (h.liesIn u hu).stop_le
    have := c.utf8Size_pos
    simp only [byteLength_append, byteLength_cons] at hstop
    omega
  · rw [List.mem_singleton.mp hu]
    exact .inl hbracket

end Decomposition

namespace Token

variable {run string : List Char} {offset : Nat}

theorem toList_text_atom (text : List Char) (offset : Nat) :
    (atom text offset).text.toList = text := by
  simp [atom]

theorem isShaped_atom (h : IsAtom run string) : (atom (run ++ string) offset).IsShaped :=
  .atom (toList_text_atom _ _) h ((Kind.eq_ofAtom_iff h).mp rfl)

theorem not_isBracket_atom (h : IsAtom run string) : ¬(atom (run ++ string) offset).IsBracket := by
  have hkind := ((Kind.eq_ofAtom_iff h).mp rfl).ne_bracket
  rintro (hopening | hclosing)
  · exact hkind.1 hopening
  · exact hkind.2 hclosing

end Token

/-- A cut is a decomposition. Where it is not tight, what ends the text is a bracket or an atom with
a string, so that an atom may follow at once. -/
theorem Cut.decomposition {text : List Char} {tokens : List Token} {tight : Bool}
    (h : Cut text tokens tight) :
    Decomposition text tokens ∧
      (tight = false → ∀ t ∈ tokens, t.stop = byteLength text → t.IsBracket ∨ t.EndsInString) := by
  induction h with
  | nil => exact ⟨.nil, by simp⟩
  | @blank text tokens tight c hcut hc ih =>
    -- no token ends a text that ends in a blank
    refine ⟨ih.1.append_blank hc, fun _ t ht hstop => ?_⟩
    have := (ih.1.liesIn t ht).stop_le
    have := c.utf8Size_pos
    simp only [byteLength_append, byteLength_cons] at hstop
    omega
  | opening hcut ih =>
    have hnext := ih.1.append_bracket (c := '(') (t := ⟨.opening, "(", _⟩) rfl
      (.opening rfl rfl) (.inl rfl) (by simp)
    exact ⟨hnext.1, fun _ => hnext.2⟩
  | closing hcut ih =>
    have hnext := ih.1.append_bracket (c := ')') (t := ⟨.closing, ")", _⟩) rfl
      (.closing rfl rfl) (.inr rfl) (by simp)
    exact ⟨hnext.1, fun _ => hnext.2⟩
  | @atom text tokens run string hcut hatom ih =>
    have hnext := ih.1.append_token (t := .atom (run ++ string) (byteLength text)) rfl
      (Token.isShaped_atom hatom) fun u hu hstop => (ih.2 rfl u hu hstop).imp_right .inr
    rw [Token.toList_text_atom] at hnext
    refine ⟨hnext, fun hstring t ht hstop => ?_⟩
    rcases List.mem_append.mp ht with ht | ht
    · -- the tokens before the atom end where it begins
      have := (ih.1.liesIn t ht).stop_le
      have := byteLength_pos hatom.ne_nil
      rw [byteLength_append] at hstop
      omega
    · rw [List.mem_singleton.mp ht]
      have hne : string ≠ [] := by simpa using hstring
      refine .inr ⟨run, string, Token.toList_text_atom _ _, hatom.plain, ?_⟩
      exact hatom.eq_nil_or_isString.resolve_left hne

/-- A tight text ends with an atom that has no string. -/
theorem Cut.exists_of_tight {text : List Char} {tokens : List Token} (h : Cut text tokens true) :
    ∃ t ∈ tokens, t.stop = byteLength text ∧ ¬t.IsBracket ∧ ¬t.EndsInString := by
  generalize htight : true = tight at h
  cases h with
  | @atom text tokens run string hcut hatom =>
    have hnil : string = [] := by simpa using htight.symm
    subst hnil
    refine ⟨.atom (run ++ []) (byteLength text), by simp, ?_, Token.not_isBracket_atom hatom, ?_⟩
    · rw [Token.stop, Token.toList_text_atom, byteLength_append]
      simp [Token.atom]
    · refine Token.not_endsInString_of_plain ?_
      rw [Token.toList_text_atom, List.append_nil]
      exact hatom.plain
  | _ => cases htight

/-! ### Decompositions are cuts -/

/-- A cut goes on with a token that may follow the tokens before it. -/
theorem Cut.append_token {text : List Char} {tokens : List Token} {tight : Bool} {t : Token}
    (h : Cut text tokens tight) (hoffset : t.offset = byteLength text) (hshaped : t.IsShaped)
    (hseparated : ∀ u ∈ tokens, u.MayPrecede t) :
    ∃ tight', Cut (text ++ t.text.toList) (tokens ++ [t]) tight' := by
  obtain ⟨kind, word, offset⟩ := t
  subst hoffset
  cases hshaped with
  | opening hkind hword =>
    subst hkind hword
    exact ⟨false, by simpa using h.opening⟩
  | closing hkind hword =>
    subst hkind hword
    exact ⟨false, by simpa using h.closing⟩
  | @atom run string hword hatom hkind =>
    -- a tight text ends in an atom that would go on with this one
    have htight : tight = false := by
      by_contra htight
      rw [Bool.not_eq_false] at htight
      subst htight
      obtain ⟨u, hu, hstop, hbracket, hstring⟩ := h.exists_of_tight
      rcases hseparated u hu hstop with hfirst | (hsecond | hsecond) | hfirst
      · exact hbracket hfirst
      · exact hkind.ne_bracket.1 hsecond
      · exact hkind.ne_bracket.2 hsecond
      · exact hstring hfirst
    subst htight
    have htoken : (⟨kind, word, byteLength text⟩ : Token) =
        .atom (run ++ string) (byteLength text) := by
      rw [Token.atom, ← hword, String.ofList_toList, hword,
        ← (Token.Kind.eq_ofAtom_iff hatom).mpr hkind]
    rw [htoken, Token.toList_text_atom]
    exact ⟨_, h.atom hatom⟩

namespace Decomposition

variable {source front : List Char} {tokens : List Token} {c : Char} {t : Token}

/-- A last character in no token is a blank, and can be taken away. -/
theorem of_append_blank (h : Decomposition (front ++ [c]) tokens)
    (hc : ∀ t ∈ tokens, ¬(t.offset ≤ byteLength front ∧ byteLength front < t.stop)) :
    isBlank c ∧ Decomposition front tokens := by
  constructor
  · rcases h.covered front c [] rfl with hblank | ⟨t, ht, hcover⟩
    · exact hblank
    · exact absurd hcover (hc t ht)
  · refine ⟨fun t ht => ?_, h.ordered, fun before d after heq => ?_, h.isShaped, h.separated⟩
    · refine (h.liesIn t ht).of_append ?_
      by_contra hstop
      -- the token would begin before the last character and end behind it
      obtain ⟨before, after, hsource, hoffset⟩ := h.liesIn t ht
      have hne : t.text.toList ++ after ≠ [] := by simp [(h.isShaped t ht).text_ne_nil]
      obtain ⟨rest, last, hlast⟩ := (List.eq_nil_or_concat' _).resolve_left hne
      rw [hlast, ← List.append_assoc] at hsource
      have hfront := (List.append_inj' hsource rfl).1
      have hle : t.offset ≤ byteLength front := by
        rw [hfront, byteLength_append]
        omega
      exact hc t ht ⟨hle, Nat.lt_of_not_le hstop⟩
    · exact h.covered before d (after ++ [c]) (by simp [heq])

/-- A token that ends the source is the last one. -/
theorem exists_eq_concat (h : Decomposition source tokens) (ht : t ∈ tokens)
    (hstop : byteLength source ≤ t.stop) : ∃ rest, tokens = rest ++ [t] := by
  obtain ⟨us, vs, rfl⟩ := List.append_of_mem ht
  have hvs : vs = [] := by
    rw [List.eq_nil_iff_forall_not_mem]
    intro v hv
    -- the token v would begin where the source ends
    have hlt := (h.isShaped v (by simp [hv])).offset_lt_stop
    have hle := (h.liesIn v (by simp [hv])).stop_le
    have hordered := (List.pairwise_append.mp h.ordered).2.1
    have := ((List.pairwise_cons.mp hordered).1 v hv).2
    omega
  exact ⟨us, by rw [hvs]⟩

/-- A last token that ends the source can be taken away with its text. -/
theorem of_append_token {rest : List Token} (h : Decomposition (front ++ t.text.toList) (rest ++ [t]))
    (hoffset : byteLength front = t.offset) : Decomposition front rest where
  liesIn u hu := by
    have hordered := (List.pairwise_append.mp h.ordered).2.2 u hu t (List.mem_singleton_self t)
    refine (h.liesIn u (List.mem_append_left _ hu)).of_append ?_
    rw [hoffset]
    exact hordered.2
  ordered := (List.pairwise_append.mp h.ordered).1
  covered before c after heq := by
    rcases h.covered before c (after ++ t.text.toList) (by simp [heq]) with hc | ⟨u, hu, hcover⟩
    · exact .inl hc
    · rcases List.mem_append.mp hu with hu | hu
      · exact .inr ⟨u, hu, hcover⟩
      · -- the last token begins behind what is left
        have := c.utf8Size_pos
        rw [List.mem_singleton.mp hu, ← hoffset, heq, byteLength_append, byteLength_cons] at hcover
        omega
  isShaped u hu := h.isShaped u (List.mem_append_left _ hu)
  separated := (List.pairwise_append.mp h.separated).1

/-- A source without characters has no tokens. -/
theorem eq_nil_of_nil (h : Decomposition [] tokens) : tokens = [] := by
  rw [List.eq_nil_iff_forall_not_mem]
  intro t ht
  have hlt := (h.isShaped t ht).offset_lt_stop
  have hle := (h.liesIn t ht).stop_le
  rw [byteLength_nil] at hle
  omega

/-- A decomposition is a cut. -/
theorem exists_cut (h : Decomposition source tokens) : ∃ tight, Cut source tokens tight := by
  induction hlength : source.length using Nat.strongRecOn generalizing source tokens with
  | ind n ih =>
    -- what the last character belongs to is taken away, a token or a blank
    rcases List.eq_nil_or_concat' source with rfl | ⟨front, c, rfl⟩
    · rw [h.eq_nil_of_nil]
      exact ⟨false, .nil⟩
    · by_cases hc : ∃ t ∈ tokens, t.offset ≤ byteLength front ∧ byteLength front < t.stop
      · obtain ⟨t, ht, -, hstop⟩ := hc
        obtain ⟨rest, hsource, hoffset⟩ := (h.liesIn t ht).exists_eq_append hstop
        have hend : byteLength (front ++ [c]) = t.stop := by
          rw [hsource, byteLength_append, hoffset]
          rfl
        obtain ⟨us, rfl⟩ := h.exists_eq_concat ht (Nat.le_of_eq hend)
        have hshaped := h.isShaped t ht
        have hprecede := (List.pairwise_append.mp h.separated).2.2
        have hlt : rest.length < n := by
          have := List.length_pos_of_ne_nil hshaped.text_ne_nil
          rw [← hlength, hsource, List.length_append]
          omega
        rw [hsource] at h ⊢
        obtain ⟨tight, hcut⟩ := ih rest.length hlt (h.of_append_token hoffset) rfl
        exact hcut.append_token hoffset.symm hshaped
          fun u hu => hprecede u hu t List.mem_cons_self
      · have hnone : ∀ t ∈ tokens, ¬(t.offset ≤ byteLength front ∧ byteLength front < t.stop) :=
          fun t ht hcover => hc ⟨t, ht, hcover⟩
        obtain ⟨hblank, hfront⟩ := h.of_append_blank hnone
        obtain ⟨tight, hcut⟩ := ih front.length (by simp at hlength; omega) hfront rfl
        exact ⟨false, hcut.blank hblank⟩

end Decomposition

/-- **Strict reading is exact.** It succeeds exactly on the sources that have a decomposition
into tokens, with the tokens of that decomposition, and no source has two. -/
theorem tokenize_exact (source : String) :
    (∀ tokens, tokenize source = .ok tokens ↔ Decomposition source.toList tokens) ∧
      ∀ tokens others, Decomposition source.toList tokens → Decomposition source.toList others →
        tokens = others := by
  have hiff : ∀ tokens, tokenize source = .ok tokens ↔ Decomposition source.toList tokens := by
    intro tokens
    rw [tokenize_eq_ok_iff_cut]
    exact ⟨fun ⟨_, h⟩ => h.decomposition.1, Decomposition.exists_cut⟩
  refine ⟨hiff, fun tokens others h hothers => ?_⟩
  have heq := ((hiff tokens).mpr h).symm.trans ((hiff others).mpr hothers)
  exact Except.ok.inj heq

end ListLanguage
