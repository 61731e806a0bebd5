/-!
# Rounding a quotient to a double

The finite doubles that are not negative, taken in increasing order, are numbered `0, 1, 2, …`;
the number of a double is its **rank**, and it is also the double's bit pattern without the
sign. The least positive double, rank one, is `2 ^ -1074`, and every double is a multiple of
it: `units rank` says which multiple. Below rank `2 ^ 53` neighbours are one unit apart, and
the distance doubles every `2 ^ 52` ranks after that.

`nearestRank num den` is the rank of the double nearest to `num / den`, of two equally near
ones the one with the even rank. From the middle between the greatest double and the next
power of two upwards that is `infinityRank`, the bit pattern of infinity.

Powers are written with `Nat.pow`, so that what they mean does not depend on the instances that a
reader of these definitions has at hand.
-/

namespace ListLanguage

namespace Number

/-- The number of doubles between a power of two and the next one. -/
def binade : Nat := Nat.pow 2 52

/-- The number of units of the least positive double in one. -/
def unitsPerOne : Nat := Nat.pow 2 1074

/-- The bit pattern of infinity, one more than the rank of the greatest double. -/
def infinityRank : Nat := 0x7FF * binade

/-- The place of the sign in a bit pattern. -/
def signBit : Nat := Nat.pow 2 63

/-- How many times the least positive double the double of a rank is. -/
def units (rank : Nat) : Nat :=
  if rank < binade then rank else (binade + rank % binade) * Nat.pow 2 (rank / binade - 1)

/-- The whole number nearest to `num / den`, of two equally near ones the even one. -/
def roundHalfEven (num den : Nat) : Nat :=
  let whole := num / den
  let twice := 2 * (num % den)
  if twice < den then whole
  else if den < twice then whole + 1
  else whole + whole % 2

/-- The rank of the double nearest to `num / den`. The quotient is taken in units of the
least positive double; where the doubles are `2 ^ shift` units apart, it is rounded to a
multiple of that distance. -/
def nearestRank (num den : Nat) : Nat :=
  let shift := Nat.log2 (num * unitsPerOne / den) - 52
  min infinityRank (shift * binade + roundHalfEven (num * unitsPerOne) (den * Nat.pow 2 shift))

/-- The rank of a double without its sign. -/
def rank (x : Float) : Nat :=
  x.toBits.toNat % signBit

/-- Whether the sign of a double is set; it may be on a zero. -/
def isNegative (x : Float) : Bool :=
  signBit ≤ x.toBits.toNat

/-- The double with a sign and a rank. -/
def ofRank (negative : Bool) (rank : Nat) : Float :=
  Float.ofBits (UInt64.ofNat ((if negative then signBit else 0) + rank))

/-- The double nearest to a whole number. -/
def ofInt (n : Int) : Float :=
  ofRank (n < 0) (nearestRank n.natAbs 1)

/-- The double of the same value as a single. A single's least positive value is `2 ^ -149`. -/
def ofSingle (x : Float32) : Float :=
  let bits := x.toBits.toNat
  let exponent := bits / Nat.pow 2 23 % Nat.pow 2 8
  let fraction := bits % Nat.pow 2 23
  let significand :=
    if exponent = 0 then fraction else (Nat.pow 2 23 + fraction) * Nat.pow 2 (exponent - 1)
  if exponent < 255 then ofRank (Nat.pow 2 31 ≤ bits) (nearestRank significand (Nat.pow 2 149))
  else if fraction = 0 then ofRank (Nat.pow 2 31 ≤ bits) infinityRank
  else ofRank false (infinityRank + binade / 2)

theorem roundHalfEven_mul_right (n : Nat) {den : Nat} (h : 0 < den) :
    roundHalfEven (n * den) den = n := by
  simp [roundHalfEven, Nat.mul_div_cancel _ h, h]

/-- A rounded quotient is never above infinity. -/
theorem nearestRank_le (num den : Nat) : nearestRank num den ≤ infinityRank :=
  Nat.min_le_left ..

@[simp]
theorem nearestRank_zero (den : Nat) : nearestRank 0 den = 0 := by
  have h : roundHalfEven 0 den = 0 := by
    rcases Nat.eq_zero_or_pos den with rfl | h
    · rfl
    · simpa using roundHalfEven_mul_right 0 h
  simp [nearestRank, h]

end Number

end ListLanguage
