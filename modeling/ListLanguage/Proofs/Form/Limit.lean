import ListLanguage.Proofs.Form.Reading

/-!
# The limit on nesting

Where the height of a row of tokens rises above the limit, and no bracket before has closed where no
list is open, reading ends at the first opening bracket for which there is no room
(`Form.ofTokens_eq_error_of_height_gt`).
-/

namespace ListLanguage

open Form Mark

variable {limit : Nat} {tokens : List Token}

namespace Reader

variable {r : Reader} {token : Token}

/-- **Step**: a token is read, or it opens a list where there is no room, or it closes where no list
is open. -/
theorem step_eq_error_or (r : Reader) (limit : Nat) (token : Token) :
    (∃ s, r.step limit token = .ok s) ∨
      (token.mark = .opening ∧ limit ≤ r.depth ∧
        r.step limit token = .error (.tooDeeplyNested token.offset limit)) ∨
      (token.mark = .closing ∧ r.depth = 0 ∧
        r.step limit token = .error (.unbalancedClose token.offset token.text)) := by
  cases hmark : token.mark with
  | opening =>
    by_cases hroom : limit ≤ r.depth
    · exact .inr (.inl ⟨rfl, hroom, by rw [step_of_mark_opening hmark, if_pos hroom]⟩)
    · exact .inl ⟨_, by rw [step_of_mark_opening hmark, if_neg hroom]⟩
  | closing =>
    cases hopen : r.enclosing with
    | nil => exact .inr (.inr ⟨rfl, by simp [depth, hopen], step_of_mark_closing_nil hmark hopen⟩)
    | cons elements outer => exact .inl ⟨_, step_of_mark_closing_cons hmark hopen⟩
  | leaf form => exact .inl ⟨_, step_of_mark_leaf hmark⟩

/-- **Run**: tokens that nest too deeply are refused for that. -/
theorem read_eq_error_of_height_gt (hr : r.depth ≤ limit) {before : List Mark}
    (hbefore : before <+: tokens.map Token.mark)
    (hlow : ∀ first, first <+: before → 0 ≤ r.depth + height first)
    (hhigh : limit < r.depth + height before) :
    ∃ token ∈ tokens, r.read limit tokens = .error (.tooDeeplyNested token.offset limit) := by
  induction tokens generalizing r before with
  | nil =>
    rw [List.prefix_nil.mp hbefore, height_nil] at hhigh
    omega
  | cons token tokens ih =>
    rcases List.prefix_cons_iff.mp hbefore with rfl | ⟨rest, rfl, hrest⟩
    · rw [height_nil] at hhigh
      omega
    · obtain ⟨middle, hstep⟩ | ⟨-, -, hstep⟩ | ⟨hmark, hdepth, -⟩ := step_eq_error_or r limit token
      · -- the height of the rest is counted from the lists that are open now
        obtain ⟨hdepth, hmiddle⟩ := depth_step hstep hr
        rw [height_cons] at hhigh
        obtain ⟨later, hlater, hread⟩ := ih hmiddle hrest
          (fun first hfirst => by
            have hcons := hlow (token.mark :: first) ((List.prefix_cons_inj _).mpr hfirst)
            rw [height_cons] at hcons
            omega) (by omega)
        refine ⟨later, List.mem_cons_of_mem token hlater, ?_⟩
        rw [read_cons, hstep]
        exact hread
      · refine ⟨token, List.mem_cons_self, ?_⟩
        rw [read_cons, hstep]
        rfl
      · have hfirst := hlow [token.mark] ((List.prefix_cons_inj _).mpr List.nil_prefix)
        rw [hmark, hdepth, height_cons, height_nil, rise_closing] at hfirst
        omega

end Reader

namespace Form

/-- Tokens that nest too deeply are refused for that, if no bracket before closes where no list is
open. -/
theorem ofTokens_eq_error_of_height_gt {before : List Mark}
    (hbefore : before <+: tokens.map Token.mark) (hlow : ∀ first, first <+: before → 0 ≤ height first)
    (hhigh : limit < height before) :
    ∃ token ∈ tokens, ofTokens tokens limit = .error (.tooDeeplyNested token.offset limit) := by
  obtain ⟨token, htoken, hread⟩ := Reader.read_eq_error_of_height_gt (r := {})
    (Nat.zero_le limit) hbefore (by simpa [Reader.depth] using hlow)
    (by simpa [Reader.depth] using hhigh)
  exact ⟨token, htoken, by rw [ofTokens, hread]; rfl⟩

end Form

end ListLanguage
