import Mathlib.Data.List.Forall2
import ListLanguage.Proofs.Form.Reading
import ListLanguage.Proofs.Number.Notation

/-!
# Reading is exact

Each token **gives** one mark, and its kind tells which: an opening bracket an opening mark, a closing
bracket a closing mark, and an atom a leaf. The leaf of a number token is a number if the text of the
token can be read as one. The text of a token that was made by hand need not be in the notation of
numbers; then the leaf is a symbol, as it is for a symbol token. The leaf of a quoted token is a string.

Forms are read from tokens if the brackets are balanced, and then the outline of the forms consists of
the marks that the tokens give. Since outlines are unambiguous, no other forms have that outline
(`Form.ofTokens_exact`).
-/

namespace ListLanguage

open Form

namespace Token

/-- What mark a token **gives**, told by its kind and its text. -/
inductive Gives (token : Token) : Mark → Prop where
  | opening : token.kind = .opening → Gives token .opening
  | closing : token.kind = .closing → Gives token .closing
  | number {x : Float} : token.kind = .number → Number.ofText? token.text = some x →
    Gives token (.leaf (.number x))
  | unreadable : token.kind = .number → ¬Number.IsReadable token.text.toList →
    Gives token (.leaf (.symbol token.text))
  | quoted : token.kind = .quoted → Gives token (.leaf (.string token.text))
  | symbol : token.kind = .symbol → Gives token (.leaf (.symbol token.text))

variable {token : Token} {mark : Mark} {tokens : List Token} {marks : List Mark}

theorem gives_mark (token : Token) : token.Gives token.mark := by
  rw [Token.mark]
  cases hkind : token.kind with
  | opening => exact .opening hkind
  | closing => exact .closing hkind
  | number =>
    cases hread : Number.ofText? token.text with
    | some x => simpa [ofAtom, hkind, hread] using Gives.number hkind hread
    | none =>
      have hunreadable : ¬Number.IsReadable token.text.toList := by
        simp [← Number.exists_ofText?_eq_some_iff, hread]
      simpa [ofAtom, hkind, hread] using Gives.unreadable hkind hunreadable
  | quoted => simpa [ofAtom, hkind] using Gives.quoted hkind
  | symbol => simpa [ofAtom, hkind] using Gives.symbol hkind

/-- A token gives one mark only. -/
theorem Gives.eq_mark (h : token.Gives mark) : token.mark = mark := by
  rw [Token.mark]
  rcases h with hkind | hkind | ⟨hkind, hread⟩ | ⟨hkind, hunreadable⟩ | hkind | hkind
  · rw [hkind]
  · rw [hkind]
  · simp [hkind, ofAtom, hread]
  · have hread : Number.ofText? token.text = none := by
      rwa [Option.eq_none_iff_forall_ne_some, ← not_exists, Number.exists_ofText?_eq_some_iff]
    simp [hkind, ofAtom, hread]
  · simp [hkind, ofAtom]
  · simp [hkind, ofAtom]

theorem gives_iff : token.Gives mark ↔ token.mark = mark :=
  ⟨Gives.eq_mark, fun h => h ▸ gives_mark token⟩

/-- The marks that some tokens give are the marks of the tokens. -/
theorem forall₂_gives_iff : List.Forall₂ Gives tokens marks ↔ tokens.map Token.mark = marks := by
  have heq : Gives = fun token mark => token.mark = mark := by
    funext token mark
    exact propext gives_iff
  rw [heq, ← List.forall₂_eq_eq_eq, List.forall₂_map_left_iff]

end Token

namespace Form

/-- **Reading is exact.** Tokens are read exactly when their brackets are balanced within the limit.
The forms that are read, written out from left to right, are what the tokens give in order; they are
the only forms of which this is true, and none of them is deeper than the limit. -/
theorem ofTokens_exact (tokens : List Token) (limit : Nat) :
    ((∃ forms, ofTokens tokens limit = .ok forms) ↔ Balanced limit tokens) ∧
      ∀ forms, ofTokens tokens limit = .ok forms →
        List.Forall₂ Token.Gives tokens (outlineAll forms) ∧
          (∀ others, List.Forall₂ Token.Gives tokens (outlineAll others) → others = forms) ∧
          ∀ form ∈ forms, form.depth ≤ limit := by
  refine ⟨⟨fun ⟨forms, h⟩ => balanced_of_ofTokens_eq_ok h, exists_ofTokens_eq_ok⟩,
    fun forms h => ?_⟩
  have houtline := outlineAll_of_ofTokens_eq_ok h
  refine ⟨Token.forall₂_gives_iff.mpr houtline.symm, fun others hothers => ?_,
    depth_le_of_ofTokens_eq_ok h⟩
  rw [Token.forall₂_gives_iff, ← houtline] at hothers
  exact outlineAll_injective hothers.symm

end Form

end ListLanguage
