import ListLanguage.Number.Shortest

/-!
# Rounding what is already a double

A quotient that is a double is not changed by rounding (`nearestRank_eq_of_mul_eq`). So the
exact value of a double is read as that double, and so is every shortest decimal: one found on a
grid was tested, and the exact value stands behind the grids (`rank_shortest`).
-/

namespace ListLanguage

namespace Number

variable {r : Nat}

theorem units_of_lt (h : r < binade) : units r = r := by
  rw [units, if_pos h]

theorem units_of_le (h : binade ≤ r) :
    units r = (binade + r % binade) * Nat.pow 2 (r / binade - 1) := by
  rw [units, if_neg (Nat.not_lt.mpr h)]

/-- The size of a double tells how far its neighbours are away: from the first power of two on,
it has one more binary digit for every full binade below it. -/
theorem log2_units (h : binade ≤ r) : Nat.log2 (units r) = 52 + (r / binade - 1) := by
  have hunits : units r = (binade + r % binade) * 2 ^ (r / binade - 1) := units_of_le h
  have hlt : r % binade < binade := Nat.mod_lt r (by decide)
  have hpow : 0 < 2 ^ (r / binade - 1) := Nat.two_pow_pos _
  have hlow : 2 ^ 52 * 2 ^ (r / binade - 1) ≤ units r := by
    rw [hunits]
    exact Nat.mul_le_mul_right _ (Nat.le_add_right binade _)
  have hhigh : units r < 2 ^ 53 * 2 ^ (r / binade - 1) := by
    rw [hunits]
    exact Nat.mul_lt_mul_of_pos_right (Nat.add_lt_add_left hlt binade) hpow
  have hpos : units r ≠ 0 := by
    have := Nat.mul_pos (Nat.two_pow_pos 52) hpow
    omega
  rw [Nat.log2_eq_iff hpos, show 52 + (r / binade - 1) + 1 = 53 + (r / binade - 1) by omega,
    Nat.pow_add, Nat.pow_add]
  exact ⟨hlow, hhigh⟩

/-- A double is a multiple of the distance to its neighbours, and its rank counts the multiples
behind the distances. -/
theorem exists_units_eq (r : Nat) :
    ∃ n, units r = n * Nat.pow 2 (Nat.log2 (units r) - 52) ∧
      (Nat.log2 (units r) - 52) * binade + n = r := by
  rcases Nat.lt_or_ge r binade with hr | hr
  · -- below the first power of two the doubles are one unit apart
    have hlog : Nat.log2 (units r) - 52 = 0 := by
      rw [units_of_lt hr]
      rcases Nat.eq_zero_or_pos r with rfl | hpos
      · rfl
      · have := (Nat.log2_lt (Nat.ne_of_gt hpos)).mpr hr
        omega
    exact ⟨r, by rw [hlog, units_of_lt hr]; exact (Nat.mul_one r).symm, by rw [hlog]; omega⟩
  · have hquotient : 1 ≤ r / binade := Nat.div_pos hr (by decide)
    have hshift : Nat.log2 (units r) - 52 = r / binade - 1 := by
      rw [log2_units hr]
      omega
    refine ⟨binade + r % binade, by rw [hshift, units_of_le hr], ?_⟩
    calc (Nat.log2 (units r) - 52) * binade + (binade + r % binade)
        = (r / binade - 1 + 1) * binade + r % binade := by
          rw [hshift, Nat.succ_mul, Nat.add_assoc]
      _ = r := by rw [Nat.sub_add_cancel hquotient, Nat.mul_comm, Nat.div_add_mod]

/-- A quotient that is a finite double is rounded to that double. -/
theorem nearestRank_eq_of_mul_eq {num den : Nat} (hr : r < infinityRank) (hden : 0 < den)
    (h : num * unitsPerOne = units r * den) : nearestRank num den = r := by
  obtain ⟨n, hunits, hrank⟩ := exists_units_eq r
  simp only [nearestRank]
  rw [h, Nat.mul_div_cancel _ hden]
  generalize Nat.log2 (units r) - 52 = shift at hunits hrank
  have hexact : units r * den = n * (den * Nat.pow 2 shift) := by
    rw [hunits, Nat.mul_assoc, Nat.mul_comm (Nat.pow 2 shift)]
  have hdist : 0 < den * Nat.pow 2 shift := Nat.mul_pos hden (Nat.two_pow_pos shift)
  rw [hexact, roundHalfEven_mul_right n hdist, hrank]
  exact Nat.min_eq_right (Nat.le_of_lt hr)

/-- The exact value of a finite double has its rank. -/
theorem rank_exactDecimal (hr : r < infinityRank) : (exactDecimal r).rank = r := by
  have hneg : ¬0 ≤ (exactDecimal r).exponent := Int.not_le.mpr (Int.negSucc_lt_zero 1073)
  have hplaces : (-(exactDecimal r).exponent).toNat = 1074 := rfl
  have hexact : ∀ n, unitsPerOne = Nat.pow 2 n →
      nearestRank (units r * Nat.pow 5 n) (Nat.pow 10 n) = r := by
    intro n hn
    refine nearestRank_eq_of_mul_eq hr (Nat.pow_pos (by decide)) ?_
    rw [hn, Nat.mul_assoc]
    exact congrArg (units r * ·) (Nat.mul_pow 5 2 n).symm
  rw [Decimal.rank, if_neg hneg, hplaces]
  exact hexact 1074 rfl

/-- The shortest decimal of a finite double has its rank. -/
theorem rank_shortest (hr : r < infinityRank) : (shortest r).rank = r := by
  simp only [shortest]
  cases hhit : (List.range gridCount).findSome?
      fun (i : Nat) => onGrid? r (topExponent (units r) - i) with
  | none => exact rank_exactDecimal hr
  | some d =>
    obtain ⟨i, -, hi⟩ := List.exists_of_findSome?_eq_some hhit
    exact rank_of_onGrid?_eq_some hi

end Number

end ListLanguage
