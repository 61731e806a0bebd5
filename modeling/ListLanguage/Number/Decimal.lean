import ListLanguage.Number.Rounding

/-!
# Decimals and their positional text

A **decimal** is a whole number, its digits, times a power of ten. `Decimal.positional` writes
one without an exponent: zeros follow the digits for a positive power, and a point stands
inside or in front of them for a negative one.

Two notations are read. `isNumeral` recognises the **numerals** of the language: an optional
sign, digits, and optionally a point and more digits. `magnitude?` reads a wider one, without
the sign: the digits on one side of the point may be missing, and a power of ten may follow
after `e` or `E`. A power too far out to matter is drawn in, so that no text can ask for a
number with more digits than its own length and a fixed bound allow.
-/

namespace ListLanguage

namespace Number

/-- The number `digits * 10 ^ exponent`. -/
structure Decimal where
  digits : Nat
  exponent : Int
  deriving DecidableEq

namespace Decimal

/-- The rank of the double nearest to a decimal. -/
def rank (d : Decimal) : Nat :=
  if 0 ≤ d.exponent then nearestRank (d.digits * Nat.pow 10 d.exponent.toNat) 1
  else nearestRank d.digits (Nat.pow 10 (-d.exponent).toNat)

/-- Puts a point before the last `places` of some digits, with zeros in front where there are
too few of them. -/
def withPoint (digits : List Char) (places : Nat) : List Char :=
  if places < digits.length then
    digits.take (digits.length - places) ++ '.' :: digits.drop (digits.length - places)
  else '0' :: '.' :: (List.replicate (places - digits.length) '0' ++ digits)

/-- The text of a decimal, without an exponent. -/
def positional (d : Decimal) : List Char :=
  let digits := Nat.toDigits 10 d.digits
  if 0 ≤ d.exponent then digits ++ List.replicate d.exponent.toNat '0'
  else withPoint digits (-d.exponent).toNat

end Decimal

/-- Takes a sign off a text: whether it is a minus, and what follows. -/
def splitSign : List Char → Bool × List Char
  | '-' :: rest => (true, rest)
  | '+' :: rest => (false, rest)
  | text => (false, text)

/-- Whether a text is one or more ASCII digits. -/
def isDigits (text : List Char) : Bool :=
  !text.isEmpty && text.all Char.isDigit

/-- Whether a text is a numeral: an optional sign, digits, and optionally a point followed by
digits. -/
def isNumeral (text : List Char) : Bool :=
  let body := (splitSign text).2
  let whole := body.takeWhile Char.isDigit
  match body.dropWhile Char.isDigit with
  | [] => !whole.isEmpty
  | '.' :: fraction => !whole.isEmpty && isDigits fraction
  | _ => false

/-- The power of ten at the end of a number: nothing, or `e`, an optional sign and digits. -/
def exponent? : List Char → Option Int
  | [] => some 0
  | mark :: rest =>
    let (negative, digits) := splitSign rest
    if (mark == 'e' || mark == 'E') && isDigits digits then
      let size : Int := Nat.ofDigitChars 10 digits 0
      some (if negative then -size else size)
    else none

/-- Draws a power of ten in to where it still decides: beyond these bounds a number of
`length` digits is zero or infinite whatever the power is. -/
def drawIn (length : Nat) (exponent : Int) : Int :=
  max (-(400 + length)) (min 400 exponent)

/-- Reads a magnitude: digits with at most one point among or around them, then a power of
ten. -/
def magnitude? (text : List Char) : Option Decimal :=
  let whole := text.takeWhile Char.isDigit
  let rest := text.dropWhile Char.isDigit
  let afterPoint := match rest with
    | '.' :: after => after
    | _ => []
  let fraction := afterPoint.takeWhile Char.isDigit
  let tail := if rest.head? = some '.' then afterPoint.dropWhile Char.isDigit else rest
  let digits := whole ++ fraction
  if digits.isEmpty then none
  else (exponent? tail).map fun exponent =>
    ⟨Nat.ofDigitChars 10 digits 0, drawIn digits.length (exponent - fraction.length)⟩

end Number

end ListLanguage
