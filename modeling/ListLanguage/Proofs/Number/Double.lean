import Mathlib
import ListLanguage.Number.Rounding

/-!
# Doubles and their ranks

A bit pattern is a number, and the sign and the rank of a double are its first digit and the rest.
So a double is the one with its sign and its rank (`ofRank_isNegative_rank`). The finite doubles
are those whose rank is below that of infinity (`isFinite_iff`), and behind infinity there is nothing
but the value that is not a number (`isNaN_ofRank_iff`). A finite double equals itself, and every zero
equals the one without a sign.
-/

namespace ListLanguage

namespace Number

open Float.Model Float.Model.UnpackedFloat

theorem binade_eq : binade = 2 ^ 52 := rfl

theorem signBit_eq : signBit = 2 ^ 63 := rfl

/-! ### The parts of a bit pattern -/

theorem toNat_unpackExponent (bits : UInt64) :
    (@unpackExponent .binary64 bits.toBitVec).toNat = bits.toNat / binade % 2 ^ 11 := by
  simp [unpackExponent, BitVec.extractLsb, BitVec.extractLsb', Nat.shiftRight_eq_div_pow, binade_eq]

theorem toNat_unpackMantissa (bits : UInt64) :
    (@unpackMantissa .binary64 bits.toBitVec).toNat = bits.toNat % binade := by
  simp [unpackMantissa, BitVec.extractLsb, BitVec.extractLsb', binade_eq]

/-- The exponent of a double, in its bit pattern. -/
def exponent (x : Float) : BitVec Format.binary64.exponentBits :=
  unpackExponent x.toBits.toBitVec

/-- The exponent is the place of a double's binade in the row of the binades. -/
theorem toNat_exponent (x : Float) : (exponent x).toNat = rank x / binade := by
  rw [exponent, toNat_unpackExponent, rank, signBit_eq, binade_eq]
  omega

/-! ### Which doubles are finite, and which are numbers -/

/-- A double is finite if not all bits of its exponent are set. -/
theorem isFinite_iff_exponent {x : Float} : x.isFinite ↔ exponent x ≠ -1#_ := by
  change (UnpackedFloat.unpack Format.binary64 x.toBits.toBitVec).isFinite = true ↔ _
  rw [UnpackedFloat.unpack]
  by_cases hlast : exponent x = -1#_
  · refine iff_of_false ?_ fun h => h hlast
    rw [exponent] at hlast
    simp only [hlast, if_true]
    split <;> simp [UnpackedFloat.isFinite]
  · refine iff_of_true ?_ hlast
    rw [exponent] at hlast
    simp only [hlast, if_false]
    split
    · split <;> rfl
    · rfl

/-- The finite doubles are those of the ranks below infinity. -/
theorem isFinite_iff {x : Float} : x.isFinite ↔ rank x < infinityRank := by
  have hlast : exponent x = -1#_ ↔ (exponent x).toNat = 2047 :=
    ⟨fun h => by rw [h]; rfl, fun h => BitVec.eq_of_toNat_eq h⟩
  have hlt : (exponent x).toNat < 2048 := (exponent x).isLt
  have hexponent := toNat_exponent x
  rw [isFinite_iff_exponent, Ne, hlast, infinityRank]
  rw [binade_eq] at hexponent ⊢
  omega

/-- A bit pattern is read as no number if its exponent is that of infinity and its mantissa is not.
All these patterns are read as one value. -/
theorem isNaN_ofBits_iff {bits : UInt64} :
    (Float.ofBits bits).isNaN ↔ @isNaNBits .binary64 bits.toBitVec := by
  change (UnpackedFloat.unpack Format.binary64 (UnpackedFloat.pack Format.binary64
    (UnpackedFloat.unpack Format.binary64 bits.toBitVec))).isNaN = true ↔ _
  rw [isNaN_unpack_iff_of_valid valid_pack, pack_unpack]
  by_cases hbits : @isNaNBits .binary64 bits.toBitVec
  · rw [if_pos hbits]
    exact iff_of_true rfl hbits
  · rw [if_neg hbits]
    refine iff_of_false (fun hpacked => hbits ?_) hbits
    rw [hpacked, isNaNBits_packedNaN]

/-- Behind infinity there is no number. -/
theorem isNaN_ofRank_iff {negative : Bool} {r : Nat} (h : r < signBit) :
    (ofRank negative r).isNaN ↔ infinityRank < r := by
  have hbits : (UInt64.ofNat ((if negative then signBit else 0) + r)).toNat =
      (if negative then signBit else 0) + r := by
    refine UInt64.toNat_ofNat_of_lt' ?_
    rw [signBit_eq] at h ⊢
    change _ < 2 ^ 64
    split <;> omega
  have hlast : (-1#_ : BitVec Format.binary64.exponentBits).toNat = 2047 := rfl
  have hzero : (0#_ : BitVec Format.binary64.mantissaBitsWithoutImplicit).toNat = 0 := rfl
  rw [ofRank, isNaN_ofBits_iff, isNaNBits, decide_eq_true_iff, ← BitVec.toNat_inj, Ne,
    ← BitVec.toNat_inj, toNat_unpackExponent, toNat_unpackMantissa, hlast, hzero, hbits, infinityRank]
  -- the sign lies in front of the exponent and the mantissa, and changes neither
  rw [signBit_eq] at h ⊢
  rw [binade_eq]
  split <;> omega

/-! ### Signs and ranks -/

variable {x : Float}

/-- A double is the one with its sign and its rank. -/
theorem ofRank_isNegative_rank (x : Float) : ofRank (isNegative x) (rank x) = x := by
  have hbits : (if isNegative x then signBit else 0) + rank x = x.toBits.toNat := by
    have hlt := x.toBits.toNat_lt
    rw [isNegative, rank, signBit_eq]
    by_cases hsign : 2 ^ 63 ≤ x.toBits.toNat
    · rw [decide_eq_true hsign, if_pos rfl]
      omega
    · rw [decide_eq_false hsign, if_neg Bool.false_ne_true]
      omega
  rw [ofRank, hbits, UInt64.ofNat_toNat, Float.ofBits_toBits]

/-- A finite double equals itself. -/
theorem beq_self_of_isFinite (h : x.isFinite) : (x == x) = true := by
  rw [Float.beq_self_iff]
  rintro rfl
  exact absurd h (by decide)

/-- Every zero equals the one without a sign. -/
theorem beq_zero_of_rank_eq_zero (h : rank x = 0) : (ofRank false 0 == x) = true := by
  have hx := ofRank_isNegative_rank x
  rw [h] at hx
  rw [← hx]
  cases isNegative x <;> rfl

end Number

end ListLanguage
