import ListLanguage.Proofs.Number.Exact
import ListLanguage.Proofs.Number.Notation

/-!
# Written numbers read back

A finite double is written as a numeral, and the numeral is read as the same double; only a zero
loses its sign (`ofText?_text`).

The positional text of a decimal is digits with at most one point among them, and reading it gives
back a decimal of the same rank (`magnitude?_positional`). The sign in front of the text, if there
is one, is the one that is taken off again.
-/

namespace ListLanguage

namespace Number

/-! ### Reading digits -/

section Digits

variable {whole fraction : List Char}

theorem isDigits_toDigits (n : Nat) : isDigits (Nat.toDigits 10 n) :=
  isDigits_iff.mpr ⟨Nat.toDigits_ne_nil, fun _ hc =>
    Nat.isDigit_of_mem_toDigits (by decide) (by decide) hc⟩

theorem isDigit_of_mem_replicate {n : Nat} : ∀ c ∈ List.replicate n '0', c.isDigit := by
  intro c hc
  rw [List.eq_of_mem_replicate hc]
  decide

/-- Zeros behind some digits multiply the number. -/
theorem ofDigitChars_append_zeros (n k : Nat) :
    Nat.ofDigitChars 10 (Nat.toDigits 10 n ++ List.replicate k '0') 0 = n * 10 ^ k := by
  rw [Nat.ofDigitChars_append, Nat.ofDigitChars_ten_toDigits, Nat.ofDigitChars_replicate_zero,
    Nat.mul_comm]

/-- Zeros in front of some digits do not change the number. -/
theorem ofDigitChars_zeros_append (n k : Nat) :
    Nat.ofDigitChars 10 (List.replicate k '0' ++ Nat.toDigits 10 n) 0 = n := by
  rw [Nat.ofDigitChars_append, Nat.ofDigitChars_replicate_zero, Nat.mul_zero,
    Nat.ofDigitChars_ten_toDigits]

/-- A small power of ten is not drawn in. -/
theorem drawIn_neg {length places : Nat} (h : places ≤ length) :
    drawIn length (0 - places) = -places := by
  rw [drawIn]
  omega

theorem magnitude?_of_isDigits (hwhole : isDigits whole) :
    magnitude? whole = some ⟨Nat.ofDigitChars 10 whole 0, 0⟩ := by
  have hpower : drawIn whole.length 0 = 0 := by
    rw [drawIn]
    omega
  have hread := magnitude?_append hwhole (.inl rfl)
  rw [List.append_nil] at hread
  rw [hread, exponent?, Option.map_some, hpower]

theorem magnitude?_point (hwhole : isDigits whole) (hfraction : isDigits fraction) :
    magnitude? (whole ++ '.' :: fraction) =
      some ⟨Nat.ofDigitChars 10 (whole ++ fraction) 0, -fraction.length⟩ := by
  obtain ⟨hne, hall⟩ := isDigits_iff.mp hwhole
  have hdigits := isDigits_append hall (isDigits_iff.mp hfraction).2
    (List.append_ne_nil_of_left_ne_nil hne _)
  have hpower : drawIn (whole ++ fraction).length (0 - fraction.length) = -fraction.length :=
    drawIn_neg (by rw [List.length_append]; exact Nat.le_add_left _ _)
  have hread := magnitude?_point_append hdigits (.inl rfl)
  rw [List.append_nil] at hread
  rw [hread, exponent?, Option.map_some, hpower]

end Digits

/-! ### Positional text -/

/-- The text of a decimal with decimal places has a point in it, which is that many digits away
from the end. -/
theorem exists_positional_point {d : Decimal} (h : d.exponent < 0) :
    ∃ whole fraction, d.positional = whole ++ '.' :: fraction ∧ isDigits whole ∧
      isDigits fraction ∧ Nat.ofDigitChars 10 (whole ++ fraction) 0 = d.digits ∧
      (fraction.length : Int) = -d.exponent := by
  have hdigits := isDigits_iff.mp (isDigits_toDigits d.digits)
  obtain ⟨places, hplaces⟩ : ∃ places : Nat, (places : Int) = -d.exponent :=
    ⟨(-d.exponent).toNat, by omega⟩
  have hpositional : d.positional = Decimal.withPoint (Nat.toDigits 10 d.digits) places := by
    rw [Decimal.positional, if_neg (by omega), ← hplaces, Int.toNat_natCast]
  have hpos : 0 < places := by omega
  rw [hpositional, Decimal.withPoint, ← hplaces]
  by_cases hlength : places < (Nat.toDigits 10 d.digits).length
  · -- the point stands among the digits
    rw [if_pos hlength]
    refine ⟨_, _, rfl, ?_, ?_, ?_, ?_⟩
    · refine isDigits_iff.mpr ⟨?_, fun c hc => hdigits.2 c (List.mem_of_mem_take hc)⟩
      rw [← List.length_pos_iff, List.length_take]
      omega
    · refine isDigits_iff.mpr ⟨?_, fun c hc => hdigits.2 c (List.mem_of_mem_drop hc)⟩
      rw [← List.length_pos_iff, List.length_drop]
      omega
    · rw [List.take_append_drop, Nat.ofDigitChars_ten_toDigits]
    · rw [List.length_drop]
      omega
  · -- the point stands in front of them, behind a zero
    rw [if_neg hlength]
    refine ⟨['0'], _, rfl, rfl, ?_, ?_, ?_⟩
    · exact isDigits_append isDigit_of_mem_replicate hdigits.2
        (List.append_ne_nil_of_right_ne_nil _ hdigits.1)
    · rw [← List.append_assoc, List.singleton_append, ← List.replicate_succ,
        ofDigitChars_zeros_append]
    · rw [List.length_append, List.length_replicate]
      omega

theorem positional_of_nonneg {d : Decimal} (h : 0 ≤ d.exponent) :
    d.positional = Nat.toDigits 10 d.digits ++ List.replicate d.exponent.toNat '0' := by
  rw [Decimal.positional, if_pos h]

theorem isDigits_positional_of_nonneg {d : Decimal} (h : 0 ≤ d.exponent) :
    isDigits d.positional := by
  have hdigits := isDigits_iff.mp (isDigits_toDigits d.digits)
  rw [positional_of_nonneg h]
  exact isDigits_append hdigits.2 isDigit_of_mem_replicate
    (List.append_ne_nil_of_left_ne_nil hdigits.1 _)

/-- The text of a decimal is digits, and possibly a point and more digits. -/
theorem exists_positional_eq (d : Decimal) :
    ∃ whole fraction, d.positional = whole ++ fraction ∧ isDigits whole ∧ IsFraction fraction := by
  by_cases h : 0 ≤ d.exponent
  · exact ⟨d.positional, [], by simp, isDigits_positional_of_nonneg h, .inl rfl⟩
  · obtain ⟨whole, fraction, hpositional, hwhole, hfraction, -⟩ :=
      exists_positional_point (Int.not_le.mp h)
    exact ⟨whole, '.' :: fraction, hpositional, hwhole, .inr ⟨fraction, rfl, hfraction⟩⟩

/-- The text of a decimal is read as a decimal of the same rank. -/
theorem magnitude?_positional (d : Decimal) :
    ∃ e, magnitude? d.positional = some e ∧ e.rank = d.rank := by
  by_cases h : 0 ≤ d.exponent
  · -- the zeros behind the digits have become part of the number
    refine ⟨_, magnitude?_of_isDigits (isDigits_positional_of_nonneg h), ?_⟩
    rw [positional_of_nonneg h, ofDigitChars_append_zeros, Decimal.rank, Decimal.rank,
      if_pos h, if_pos (Int.le_refl 0)]
    exact congrArg (nearestRank · 1) (Nat.mul_one _)
  · obtain ⟨whole, fraction, hpositional, hwhole, hfraction, hdigits, hlength⟩ :=
      exists_positional_point (Int.not_le.mp h)
    refine ⟨d, ?_, rfl⟩
    rw [hpositional, magnitude?_point hwhole hfraction, hdigits, hlength, Int.neg_neg]

/-! ### Numbers -/

variable {x : Float}

/-- The sign of a finite double as it is written. -/
def signText (x : Float) : List Char :=
  if isNegative x then ['-'] else []

theorem isSign_signText (x : Float) : IsSign (signText x) := by
  rw [signText]
  split
  · exact .inr (.inl rfl)
  · exact .inl rfl

/-- A written sign is taken off again. -/
theorem splitSign_signText (x : Float) {c : Char} (cs : List Char) (h : c.isDigit) :
    splitSign (signText x ++ c :: cs) = (isNegative x, c :: cs) := by
  rw [signText]
  cases isNegative x with
  | true => rfl
  | false => exact splitSign_of_ne cs (ne_sign_of_isDigit h)

theorem text_of_rank_eq_zero (h : rank x = 0) : text x = "0" := by
  rw [text, h]
  rfl

/-- A finite double other than zero is written as a sign and its shortest decimal. -/
theorem toList_text (h : x.isFinite) (hne : rank x ≠ 0) :
    (text x).toList = signText x ++ (shortest (rank x)).positional := by
  have hlt := isFinite_iff.mp h
  simp only [text]
  rw [if_neg (by omega), if_neg (by omega), if_neg hne, String.toList_ofList]
  rfl

/-- A finite double is written as a numeral. -/
theorem isNumeral_text (h : x.isFinite) : IsNumeral (text x).toList := by
  by_cases hzero : rank x = 0
  · rw [text_of_rank_eq_zero hzero, ← isNumeral_iff]
    rfl
  · obtain ⟨whole, fraction, hpositional, hwhole, hfraction⟩ :=
      exists_positional_eq (shortest (rank x))
    rw [toList_text h hzero, hpositional]
    exact ⟨signText x, whole, fraction, rfl, isSign_signText x, hwhole, hfraction⟩

/-- A number is written with a digit, a sign or the initial of a name in front. -/
theorem exists_toList_text_eq_cons (x : Float) :
    ∃ c cs, (text x).toList = c :: cs ∧ (c.isDigit ∨ c ∈ ['-', '+', 'I', 'N']) := by
  by_cases hfinite : x.isFinite
  · obtain ⟨sign, whole, fraction, htext, hsign, hwhole, -⟩ := isNumeral_text hfinite
    obtain ⟨c, cs, rfl, hc⟩ := exists_cons_of_isDigits hwhole
    rcases hsign with rfl | rfl | rfl
    · exact ⟨c, cs ++ fraction, htext, .inl hc⟩
    · exact ⟨'-', c :: cs ++ fraction, htext, .inr (by decide)⟩
    · exact ⟨'+', c :: cs ++ fraction, htext, .inr (by decide)⟩
  · have hrank : infinityRank ≤ rank x := Nat.not_lt.mp fun hlt => hfinite (isFinite_iff.mpr hlt)
    simp only [text]
    split_ifs with hundefined hinfinity hnegative hzero
    · exact ⟨'N', _, rfl, .inr (by decide)⟩
    · exact ⟨'-', _, rfl, .inr (by decide)⟩
    · exact ⟨'I', _, rfl, .inr (by decide)⟩
    all_goals omega

/-- A text that begins with a digit is not a name. -/
theorem contains_eq_false_of_isDigit {c : Char} (cs : List Char) (h : c.isDigit) :
    infinityNames.contains (String.ofList ((c :: cs).map Char.toLower)) = false ∧
      undefinedNames.contains (String.ofList ((c :: cs).map Char.toLower)) = false := by
  have hi : c ≠ 'i' := ne_of_isDigit h rfl
  have hn : c ≠ 'n' := ne_of_isDigit h rfl
  simp [infinityNames, undefinedNames, String.ext_iff, toLower_of_isDigit h, hi, hn]

/-- A sign and a magnitude that begins with a digit are read as a number. -/
theorem ofText?_of_isDigit {text : String} {negative : Bool} {c : Char} {cs : List Char}
    {d : Decimal} (hsplit : splitSign text.toList = (negative, c :: cs)) (hc : c.isDigit)
    (hread : magnitude? (c :: cs) = some d) : ofText? text = some (ofRank negative d.rank) := by
  obtain ⟨hinfinity, hundefined⟩ := contains_eq_false_of_isDigit cs hc
  rw [ofText?, hsplit]
  simp only [hinfinity, hundefined, hread, Bool.false_eq_true, if_false, Option.map_some]

/-- The double as which the text of a double is read: the same one, but for a zero, which loses
its sign. -/
def reread (x : Float) : Float :=
  if rank x = 0 then ofRank false 0 else x

/-- The text of a finite double is read as that double. -/
theorem ofText?_text (h : x.isFinite) : ofText? (text x) = some (reread x) := by
  by_cases hzero : rank x = 0
  · have hread : magnitude? ['0'] = some ⟨0, 0⟩ := magnitude?_of_isDigits rfl
    have hrank : (Decimal.mk 0 0).rank = 0 := by
      rw [Decimal.rank, if_pos (Int.le_refl 0), Nat.zero_mul, nearestRank_zero]
    rw [text_of_rank_eq_zero hzero, ofText?_of_isDigit rfl rfl hread, hrank,
      reread, if_pos hzero]
  · obtain ⟨whole, fraction, hpositional, hwhole, -⟩ := exists_positional_eq (shortest (rank x))
    obtain ⟨d, hread, hrank⟩ := magnitude?_positional (shortest (rank x))
    obtain ⟨c, cs, rfl, hc⟩ := exists_cons_of_isDigits hwhole
    rw [hpositional] at hread
    have hsplit : splitSign (text x).toList = (isNegative x, c :: (cs ++ fraction)) := by
      rw [toList_text h hzero, hpositional, List.cons_append, splitSign_signText x _ hc]
    rw [ofText?_of_isDigit hsplit hc hread, hrank, rank_shortest (isFinite_iff.mp h),
      ofRank_isNegative_rank x, reread, if_neg hzero]

/-- What is read equals what was written, as a double. -/
theorem reread_beq (h : x.isFinite) : (reread x == x) = true := by
  by_cases hzero : rank x = 0
  · rw [reread, if_pos hzero]
    exact beq_zero_of_rank_eq_zero hzero
  · rw [reread, if_neg hzero]
    exact beq_self_of_isFinite h

end Number

end ListLanguage
