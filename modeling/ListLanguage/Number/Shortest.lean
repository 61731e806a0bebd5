import ListLanguage.Number.Decimal

/-!
# The shortest decimal of a double

Among the decimals that are read as a given double, the **shortest** have the fewest digits;
of those, the one nearest to the double is chosen, and the upper one of two equally near.

The decimals with a given exponent form a grid. On each grid only the two neighbours of the
double can be chosen, so `onGrid?` tests those two by reading them back. `shortest` goes
through the grids from one that is coarser than the double is large to finer ones and takes
the first hit; a hit on a finer grid that ended in a zero would have been a hit on a coarser
one. Seventeen digits always suffice. After the last grid stands the double's exact value,
which reads back on its own account.
-/

namespace ListLanguage

namespace Number

/-- The number of grids that are tried. -/
def gridCount : Nat := 20

/-- A power of ten above `num / unitsPerOne`, from the number of binary digits: the logarithm
of two to base ten is close to `0.30103`. -/
def topExponent (num : Nat) : Int :=
  Int.fdiv ((Nat.log2 num + 1 - 1074 : Int) * 30103) 100000 + 1

/-- The decimal with the given exponent that is chosen for the double of a rank, if one of
the double's two neighbours on that grid is read as the double. -/
def onGrid? (rank : Nat) (exponent : Int) : Option Decimal :=
  let num := units rank * Nat.pow 10 (-exponent).toNat
  let den := unitsPerOne * Nat.pow 10 exponent.toNat
  let lower : Decimal := ⟨num / den, exponent⟩
  let upper : Decimal := ⟨num / den + 1, exponent⟩
  match decide (lower.rank = rank), decide (upper.rank = rank) with
  | true, true => if 2 * (num % den) < den then lower else upper
  | true, false => lower
  | false, true => upper
  | false, false => none

/-- The exact value of the double of a rank: a multiple of `2 ^ -1074` has at most 1074 decimal
places. -/
def exactDecimal (rank : Nat) : Decimal :=
  ⟨units rank * Nat.pow 5 1074, -1074⟩

/-- The shortest decimal that is read as the double of a rank. -/
def shortest (rank : Nat) : Decimal :=
  let top := topExponent (units rank)
  let hit := (List.range gridCount).findSome? fun (i : Nat) => onGrid? rank (top - i)
  hit.getD (exactDecimal rank)

/-- A decimal chosen on a grid is read back as the double it was chosen for. -/
theorem rank_of_onGrid?_eq_some {r : Nat} {exponent : Int} {d : Decimal}
    (h : onGrid? r exponent = some d) : d.rank = r := by
  unfold onGrid? at h
  simp only at h
  split at h <;> rename_i hl hu
  · split at h <;> cases h
    · exact of_decide_eq_true hl
    · exact of_decide_eq_true hu
  · cases h; exact of_decide_eq_true hl
  · cases h; exact of_decide_eq_true hu
  · cases h

end Number

end ListLanguage
