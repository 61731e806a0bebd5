import Mathlib.Data.List.Induction
import ListLanguage.Proofs.Form.Continuation

/-!
# The first fault

Which token is to blame when tokens cannot be read is found by counting brackets. A token is a **fault**
behind other tokens if it opens a list where their surplus of opening brackets is the limit, or closes
one where their surplus is zero.

A reader that has met no fault has as many lists open as the surplus says
(`Reader.exists_read_eq_ok_of_faultless`). So it stops at the first fault, whatever comes behind, and
without a fault it fails only if there is a surplus at the end, which is then the number of lists that
are open (`Form.ofTokens_first_fault`).
-/

namespace ListLanguage

open Form Mark

namespace Token

/-- A token that is a **fault** behind some tokens: it opens a list inside as many as are allowed, or
closes one where none is open. -/
inductive IsFault (limit : Nat) (before : List Token) (token : Token) : Prop where
  | tooDeep : token.kind = .opening → surplus before = limit → IsFault limit before token
  | unbalanced : token.kind = .closing → surplus before = 0 → IsFault limit before token

/-- Tokens of which none is a fault behind the ones before it. -/
def Faultless (limit : Nat) (tokens : List Token) : Prop :=
  ∀ before token, before ++ [token] <+: tokens → ¬IsFault limit before token

variable {limit : Nat} {tokens : List Token} {token : Token}

theorem surplus_concat (tokens : List Token) (token : Token) :
    surplus (tokens ++ [token]) = surplus tokens + token.mark.rise := by
  simp [surplus_eq_height]

theorem faultless_nil (limit : Nat) : Faultless limit [] := by
  intro before token h
  simp at h

theorem faultless_concat_iff :
    Faultless limit (tokens ++ [token]) ↔ Faultless limit tokens ∧ ¬IsFault limit tokens token := by
  constructor
  · intro h
    refine ⟨fun before other hprefix => h before other ?_, h tokens token List.prefix_rfl⟩
    exact hprefix.trans (List.prefix_append tokens [token])
  · rintro ⟨htokens, htoken⟩ before other hprefix
    rcases List.prefix_concat_iff.mp hprefix with heq | hfront
    · obtain ⟨rfl, hlast⟩ := List.append_inj' heq rfl
      rwa [List.singleton_inj.mp hlast]
    · exact htokens before other hfront

/-- Tokens that are not faultless have a first fault. -/
theorem faultless_or_exists_first_fault (limit : Nat) (tokens : List Token) :
    Faultless limit tokens ∨ ∃ before token after, tokens = before ++ token :: after ∧
      Faultless limit before ∧ IsFault limit before token := by
  induction tokens using List.reverseRecOn with
  | nil => exact .inl (faultless_nil limit)
  | append_singleton tokens last ih =>
    rcases ih with htokens | ⟨before, token, after, rfl, hbefore, hfault⟩
    · by_cases hlast : IsFault limit tokens last
      · exact .inr ⟨tokens, last, [], rfl, htokens, hlast⟩
      · exact .inl (faultless_concat_iff.mpr ⟨htokens, hlast⟩)
    · exact .inr ⟨before, token, after ++ [last], by simp, hbefore, hfault⟩

end Token

open Token

/-! ### Reading up to a fault -/

namespace Reader

variable {limit : Nat} {tokens after : List Token} {token : Token} {e : ParseError}

/-- **Run**: tokens without a fault are read, and leave as many lists open as their surplus says. -/
theorem exists_read_eq_ok_of_faultless (h : Faultless limit tokens) :
    ∃ s, ({} : Reader).read limit tokens = .ok s ∧ (s.depth : Int) = surplus tokens ∧
      s.depth ≤ limit := by
  induction tokens using List.reverseRecOn with
  | nil => exact ⟨{}, rfl, rfl, Nat.zero_le limit⟩
  | append_singleton tokens token ih =>
    obtain ⟨htokens, htoken⟩ := faultless_concat_iff.mp h
    obtain ⟨s, hread, hdepth, hroom⟩ := ih htokens
    -- the reader refuses a token just where the surplus before it makes it a fault
    obtain ⟨next, hstep⟩ | ⟨hmark, hfull, -⟩ | ⟨hmark, hopen, -⟩ := step_eq_error_or s limit token
    · obtain ⟨hnext, hlimit⟩ := depth_step hstep hroom
      refine ⟨next, ?_, by rw [surplus_concat, hnext, hdepth], hlimit⟩
      rw [read_append, hread]
      simp only [Except.bind, read_cons, hstep, read_nil]
    · exact absurd (.tooDeep (kind_of_mark_eq_opening hmark) (by omega)) htoken
    · exact absurd (.unbalanced (kind_of_mark_eq_closing hmark) (by omega)) htoken

/-- Reading stops at a token that cannot be read. -/
theorem read_append_cons_eq_error {s : Reader} (h : ({} : Reader).read limit tokens = .ok s)
    (hstep : s.step limit token = .error e) :
    ({} : Reader).read limit (tokens ++ token :: after) = .error e := by
  rw [read_append, h]
  simp only [Except.bind, read_cons, hstep]

end Reader

namespace Form

open Reader

variable {limit : Nat} {before tokens : List Token} {token : Token}

theorem ofTokens_eq_error_of_read {e : ParseError}
    (h : ({} : Reader).read limit tokens = .error e) : ofTokens tokens limit = .error e := by
  rw [ofTokens, h]
  rfl

/-- A list that is opened inside as many as are allowed is refused for that. -/
theorem ofTokens_eq_tooDeeplyNested (hbefore : Faultless limit before)
    (hkind : token.kind = .opening) (hsurplus : surplus before = limit) (after : List Token) :
    ofTokens (before ++ token :: after) limit = .error (.tooDeeplyNested token.offset limit) := by
  obtain ⟨s, hread, hdepth, -⟩ := exists_read_eq_ok_of_faultless hbefore
  have hmark : token.mark = .opening := by rw [Token.mark, hkind]
  refine ofTokens_eq_error_of_read (read_append_cons_eq_error hread ?_)
  rw [step_of_mark_opening hmark, if_pos (by omega)]

/-- A bracket that closes where no list is open is refused for that. -/
theorem ofTokens_eq_unbalancedClose (hbefore : Faultless limit before)
    (hkind : token.kind = .closing) (hsurplus : surplus before = 0) (after : List Token) :
    ofTokens (before ++ token :: after) limit =
      .error (.unbalancedClose token.offset token.text) := by
  obtain ⟨s, hread, hdepth, -⟩ := exists_read_eq_ok_of_faultless hbefore
  have hmark : token.mark = .closing := by rw [Token.mark, hkind]
  have hzero : s.depth = 0 := by omega
  have hopen : s.enclosing = [] := List.length_eq_zero_iff.mp hzero
  exact ofTokens_eq_error_of_read (read_append_cons_eq_error hread
    (step_of_mark_closing_nil hmark hopen))

/-- Tokens without a fault are read up to the end, where as many lists are open as their surplus
says. -/
theorem exists_ofTokens_eq_finish (h : Faultless limit tokens) :
    ∃ s : Reader, ofTokens tokens limit = s.finish ∧ (s.depth : Int) = surplus tokens := by
  obtain ⟨s, hread, hdepth, -⟩ := exists_read_eq_ok_of_faultless h
  exact ⟨s, by rw [ofTokens, hread]; rfl, hdepth⟩

/-- Lists that are open at the end are the fault, if there is no other one. -/
theorem ofTokens_eq_unterminatedList (h : Faultless limit tokens) {count : Nat} (hcount : 0 < count)
    (hsurplus : surplus tokens = count) :
    ofTokens tokens limit = .error (.unterminatedList count) := by
  obtain ⟨s, hfinish, hdepth⟩ := exists_ofTokens_eq_finish h
  obtain rfl : s.depth = count := by omega
  rw [hfinish]
  exact finish_eq_error_iff.mpr ⟨Nat.ne_of_gt hcount, rfl⟩

/-- Tokens without a fault are read, if no list is open at the end. -/
theorem exists_ofTokens_eq_ok_of_faultless (h : Faultless limit tokens)
    (hsurplus : surplus tokens ≤ 0) : ∃ forms, ofTokens tokens limit = .ok forms := by
  obtain ⟨s, hfinish, hdepth⟩ := exists_ofTokens_eq_finish h
  have hzero : s.depth = 0 := by omega
  have hopen : s.enclosing = [] := List.length_eq_zero_iff.mp hzero
  exact ⟨s.forms.reverse, by rw [hfinish, finish, hopen]; rfl⟩

/-- **The first fault decides.** Some tokens have no fault, or a first one. A first fault that opens a
list inside as many as are allowed is refused for that, and the error tells its offset; one that closes
where no list is open is refused for that, and the error tells its offset and its text; and what comes
behind it makes no difference. Tokens without a fault are read, unless they have a surplus of opening
brackets; then they are refused because lists are open at the end, and the error tells the surplus as
their number. -/
theorem ofTokens_first_fault (tokens : List Token) (limit : Nat) :
    (Faultless limit tokens ∨ ∃ before token after, tokens = before ++ token :: after ∧
        Faultless limit before ∧ IsFault limit before token) ∧
      (∀ before token, Faultless limit before →
        (token.kind = .opening → surplus before = limit → ∀ after,
          ofTokens (before ++ token :: after) limit = .error ⟨.tooDeeplyNested,
            s!"Expression too deeply nested at offset {token.offset} (max depth: {limit})", none⟩) ∧
        (token.kind = .closing → surplus before = 0 → ∀ after,
          ofTokens (before ++ token :: after) limit = .error ⟨.unbalancedClose,
            s!"Unexpected ')' at offset {token.offset}", some token.text⟩)) ∧
      (Faultless limit tokens →
        (∀ count : Nat, 0 < count → surplus tokens = count →
          ofTokens tokens limit = .error ⟨.unterminatedList,
            s!"Missing ')': {count} list(s) still open at end of input", none⟩) ∧
        (surplus tokens ≤ 0 → ∃ forms, ofTokens tokens limit = .ok forms)) := by
  refine ⟨faultless_or_exists_first_fault limit tokens, fun before token hbefore => ⟨?_, ?_⟩,
    fun h => ⟨?_, ?_⟩⟩
  · exact ofTokens_eq_tooDeeplyNested hbefore
  · exact ofTokens_eq_unbalancedClose hbefore
  · exact fun count => ofTokens_eq_unterminatedList h
  · exact exists_ofTokens_eq_ok_of_faultless h

end Form

end ListLanguage
