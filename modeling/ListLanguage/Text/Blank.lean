/-!
# Blank characters

Atoms are separated by blanks. A character is **blank** when it has the Unicode property
`White_Space`; the property covers twenty-five characters, six of them in ASCII, and
`blankRanges` lists them. Core's `Char.isWhitespace` knows four of those only
(`isBlank_of_isWhitespace`).
-/

namespace ListLanguage

namespace Text

/-- The code points of Unicode's `White_Space`, as closed ranges in increasing order. -/
def blankRanges : List (Nat × Nat) :=
  [(0x09, 0x0D), (0x20, 0x20), (0x85, 0x85), (0xA0, 0xA0), (0x1680, 0x1680), (0x2000, 0x200A),
    (0x2028, 0x2029), (0x202F, 0x202F), (0x205F, 0x205F), (0x3000, 0x3000)]

/-- Whether a character separates atoms. -/
def isBlank (c : Char) : Bool :=
  blankRanges.any fun (lo, hi) => lo ≤ c.toNat && c.toNat ≤ hi

/-- Every character that core counts as whitespace is blank. -/
theorem isBlank_of_isWhitespace {c : Char} (h : c.isWhitespace) : isBlank c := by
  simp only [Char.isWhitespace, Bool.or_eq_true, decide_eq_true_eq] at h
  rcases h with ((rfl | rfl) | rfl) | rfl <;> decide

/-- The ranges cover twenty-five code points. -/
theorem blankRanges_size : blankRanges.foldl (fun n (lo, hi) => n + (hi + 1 - lo)) 0 = 25 := by
  decide

end Text

end ListLanguage
