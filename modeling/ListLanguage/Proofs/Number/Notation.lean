import ListLanguage.Number.Text
import ListLanguage.Proofs.Number.Double
import ListLanguage.Proofs.Number.Numeral

/-!
# The notation of what is read as a number

More texts are read as numbers than there are numerals. Behind an optional sign stands a
**magnitude** or a name. A magnitude is a **mantissa**, which is digits with at most one point in
front of them, among them or behind them, and possibly a **power** of ten. The names are those of
infinity and of the value that is not a number; their ASCII letters may be of either case.

This is the notation itself, said without cutting a text. Just the texts in this notation are read
(`exists_ofText?_eq_some_iff`), and the value that is not a number is read from its own name only
(`isNaN_iff_of_ofText?_eq_some`). A numeral is in the notation and is not that name, so it is read
as a number (`exists_ofText?_eq_some`).
-/

namespace ListLanguage

namespace Number

/-! ### Powers of ten -/

/-- A power of ten, which may be missing: `e`, an optional sign and digits. -/
def IsPower (power : List Char) : Prop :=
  power = [] ∨ ∃ mark sign digits, power = mark :: (sign ++ digits) ∧ (mark = 'e' ∨ mark = 'E') ∧
    IsSign sign ∧ isDigits digits

theorem IsPower.stopsDigits {power : List Char} (h : IsPower power) : StopsDigits power := by
  rcases h with rfl | ⟨mark, sign, digits, rfl, rfl | rfl, -⟩
  · exact stopsDigits_nil
  · exact stopsDigits_cons _ rfl
  · exact stopsDigits_cons _ rfl

theorem IsPower.head?_ne_point {power : List Char} (h : IsPower power) : power.head? ≠ some '.' := by
  rcases h with rfl | ⟨mark, sign, digits, rfl, rfl | rfl, -⟩ <;> simp

/-- The powers of ten are the texts that `exponent?` reads. -/
theorem exists_exponent?_eq_some_iff {text : List Char} :
    (∃ e, exponent? text = some e) ↔ IsPower text := by
  constructor
  · rintro ⟨e, h⟩
    cases text with
    | nil => exact .inl rfl
    | cons mark rest =>
      obtain ⟨sign, hsign, hrest⟩ := exists_isSign_append rest
      simp only [exponent?] at h
      split at h
      · rename_i hcond
        simp only [Bool.and_eq_true, Bool.or_eq_true, beq_iff_eq] at hcond
        exact .inr ⟨mark, sign, (splitSign rest).2, by rw [← hrest], hcond.1, hsign, hcond.2⟩
      · cases h
  · rintro (rfl | ⟨mark, sign, digits, rfl, hmark, hsign, hdigits⟩)
    · exact ⟨0, rfl⟩
    · obtain ⟨c, cs, rfl, hc⟩ := exists_cons_of_isDigits hdigits
      simp only [exponent?]
      rw [splitSign_append hsign cs (ne_sign_of_isDigit hc), if_pos]
      · exact ⟨_, rfl⟩
      · simpa [hdigits] using hmark

/-! ### Magnitudes -/

/-- Digits with at most one point in front of them, among them or behind them. -/
def IsMantissa (mantissa : List Char) : Prop :=
  isDigits mantissa ∨
    ∃ whole fraction, mantissa = whole ++ '.' :: fraction ∧ isDigits (whole ++ fraction)

/-- A mantissa and a power of ten. -/
def IsMagnitude (text : List Char) : Prop :=
  ∃ mantissa power, text = mantissa ++ power ∧ IsMantissa mantissa ∧ IsPower power

section

variable {whole fraction power : List Char}

/-- Digits without a point are read up to the power behind them. -/
theorem magnitude?_append (hwhole : isDigits whole) (hpower : IsPower power) :
    magnitude? (whole ++ power) = (exponent? power).map fun e =>
      ⟨Nat.ofDigitChars 10 whole 0, drawIn whole.length e⟩ := by
  obtain ⟨hne, hall⟩ := isDigits_iff.mp hwhole
  obtain ⟨htake, hdrop⟩ := takeWhile_isDigit_append hall hpower.stopsDigits
  have hpoint := hpower.head?_ne_point
  rw [magnitude?]
  simp only [htake, hdrop, if_neg hpoint]
  split
  · simp at hpoint
  · simp [hne]

/-- Digits with a point are read as one number, and the places behind the point lower the power. -/
theorem magnitude?_point_append (hdigits : isDigits (whole ++ fraction)) (hpower : IsPower power) :
    magnitude? (whole ++ '.' :: (fraction ++ power)) = (exponent? power).map fun e =>
      ⟨Nat.ofDigitChars 10 (whole ++ fraction) 0,
        drawIn (whole ++ fraction).length (e - fraction.length)⟩ := by
  obtain ⟨hne, hall⟩ := isDigits_iff.mp hdigits
  have hwhole : ∀ c ∈ whole, c.isDigit := fun c hc => hall c (List.mem_append_left _ hc)
  have hfraction : ∀ c ∈ fraction, c.isDigit := fun c hc => hall c (List.mem_append_right _ hc)
  have hpoint : StopsDigits ('.' :: (fraction ++ power)) := stopsDigits_cons _ rfl
  obtain ⟨htake, hdrop⟩ := takeWhile_isDigit_append hwhole hpoint
  obtain ⟨htake', hdrop'⟩ := takeWhile_isDigit_append hfraction hpower.stopsDigits
  rw [magnitude?]
  simp only [htake, hdrop, htake', hdrop']
  simp [hne]

end

/-- The magnitudes are the texts that `magnitude?` reads. -/
theorem exists_magnitude?_eq_some_iff {text : List Char} :
    (∃ d, magnitude? text = some d) ↔ IsMagnitude text := by
  constructor
  · rintro ⟨d, h⟩
    have htext := List.takeWhile_append_dropWhile (p := Char.isDigit) (l := text)
    have hwhole : ∀ c ∈ text.takeWhile Char.isDigit, c.isDigit :=
      List.all_eq_true.mp List.all_takeWhile
    simp only [magnitude?] at h
    generalize text.takeWhile Char.isDigit = whole at h htext hwhole
    generalize text.dropWhile Char.isDigit = rest at h htext
    subst htext
    by_cases hpoint : rest.head? = some '.'
    · -- more digits may follow the point
      obtain ⟨after, rfl⟩ := List.head?_eq_some_iff.mp hpoint
      have hafter := List.takeWhile_append_dropWhile (p := Char.isDigit) (l := after)
      have hfraction : ∀ c ∈ after.takeWhile Char.isDigit, c.isDigit :=
        List.all_eq_true.mp List.all_takeWhile
      simp only [if_pos hpoint] at h
      split_ifs at h with hempty
      obtain ⟨e, he, -⟩ := Option.map_eq_some_iff.mp h
      refine ⟨whole ++ '.' :: after.takeWhile Char.isDigit, after.dropWhile Char.isDigit, ?_,
        .inr ⟨whole, _, rfl, ?_⟩, exists_exponent?_eq_some_iff.mp ⟨e, he⟩⟩
      · rw [List.append_assoc, List.cons_append, hafter]
      · exact isDigits_append hwhole hfraction (by simpa using hempty)
    · simp only [if_neg hpoint] at h
      split at h
      · simp at hpoint
      · split_ifs at h with hempty
        obtain ⟨e, he, -⟩ := Option.map_eq_some_iff.mp h
        have hdigits : isDigits whole := isDigits_iff.mpr ⟨by simpa using hempty, hwhole⟩
        exact ⟨whole, rest, rfl, .inl hdigits, exists_exponent?_eq_some_iff.mp ⟨e, he⟩⟩
  · rintro ⟨mantissa, power, rfl, hmantissa | ⟨whole, fraction, rfl, hdigits⟩, hpower⟩
    · obtain ⟨e, he⟩ := exists_exponent?_eq_some_iff.mpr hpower
      exact ⟨_, by rw [magnitude?_append hmantissa hpower, he, Option.map_some]⟩
    · obtain ⟨e, he⟩ := exists_exponent?_eq_some_iff.mpr hpower
      rw [List.append_assoc, List.cons_append]
      exact ⟨_, by rw [magnitude?_point_append hdigits hpower, he, Option.map_some]⟩

/-- A decimal is read as infinity at most. -/
theorem Decimal.rank_le (d : Decimal) : d.rank ≤ infinityRank := by
  rw [rank]
  split
  · exact nearestRank_le _ _
  · exact nearestRank_le _ _

/-! ### Names and signs -/

/-- A digit has no case. -/
theorem toLower_of_isDigit {c : Char} (h : c.isDigit) : c.toLower = c := by
  refine Char.toLower_eq_of_not_isUpper fun hupper => ?_
  simp only [Char.isDigit, Char.isUpper, Bool.and_eq_true, decide_eq_true_eq] at h hupper
  exact absurd (UInt32.le_trans hupper.1 h.2) (by decide)

/-- A name, with its ASCII letters in either case. -/
def IsNamed (name : String) (text : List Char) : Prop :=
  text.map Char.toLower = name.toList

/-- A name begins with its first letter, in either case. -/
theorem IsNamed.exists_eq_cons {name : String} {text : List Char} {d : Char} {ds : List Char}
    (h : IsNamed name text) (hname : name.toList = d :: ds) :
    ∃ c cs, text = c :: cs ∧ c.toLower = d := by
  rw [IsNamed, hname] at h
  obtain ⟨c, cs, htext, hc, -⟩ := List.map_eq_cons_iff.mp h
  exact ⟨c, cs, htext, hc⟩

/-- A magnitude or a name. -/
inductive IsUnsigned (body : List Char) : Prop where
  | infinity : IsNamed "inf" body ∨ IsNamed "infinity" body → IsUnsigned body
  | undefined : IsNamed "nan" body → IsUnsigned body
  | magnitude : IsMagnitude body → IsUnsigned body

/-- The notation of the texts that are read as numbers. -/
def IsReadable (text : List Char) : Prop :=
  ∃ sign body, text = sign ++ body ∧ IsSign sign ∧ IsUnsigned body

/-- The name of the value that is not a number, possibly with a sign. -/
def IsUndefined (text : List Char) : Prop :=
  ∃ sign body, text = sign ++ body ∧ IsSign sign ∧ IsNamed "nan" body

/-- Numerals are read as numbers: their digits are a mantissa, and no power follows. -/
theorem IsNumeral.isReadable {text : List Char} (h : IsNumeral text) : IsReadable text := by
  obtain ⟨sign, whole, fraction, rfl, hsign, hwhole, hfraction⟩ := h
  refine ⟨sign, whole ++ fraction, rfl, hsign, .magnitude ⟨whole ++ fraction, [], ?_, ?_, .inl rfl⟩⟩
  · rw [List.append_nil]
  · rcases hfraction with rfl | ⟨digits, rfl, hdigits⟩
    · exact .inl (by rwa [List.append_nil])
    · obtain ⟨hne, hall⟩ := isDigits_iff.mp hwhole
      have hmantissa := isDigits_append hall (isDigits_iff.mp hdigits).2 (by simp [hne])
      exact .inr ⟨whole, digits, rfl, hmantissa⟩

/-- How a text without a sign can begin. -/
theorem IsUnsigned.exists_eq_cons {body : List Char} (h : IsUnsigned body) :
    ∃ c cs, body = c :: cs ∧ (c.isDigit ∨ c = '.' ∨ c.toLower = 'i' ∨ c.toLower = 'n') := by
  cases h with
  | infinity hname =>
    obtain ⟨c, cs, hbody, hc⟩ : ∃ c cs, body = c :: cs ∧ c.toLower = 'i' :=
      hname.elim (fun hname => hname.exists_eq_cons rfl) (fun hname => hname.exists_eq_cons rfl)
    exact ⟨c, cs, hbody, .inr (.inr (.inl hc))⟩
  | undefined hname =>
    obtain ⟨c, cs, hbody, hc⟩ : ∃ c cs, body = c :: cs ∧ c.toLower = 'n' := hname.exists_eq_cons rfl
    exact ⟨c, cs, hbody, .inr (.inr (.inr hc))⟩
  | magnitude hmagnitude =>
    obtain ⟨mantissa, power, rfl, hdigits | ⟨whole, fraction, rfl, hdigits⟩, -⟩ := hmagnitude
    · obtain ⟨c, cs, rfl, hc⟩ := exists_cons_of_isDigits hdigits
      exact ⟨c, cs ++ power, rfl, .inl hc⟩
    · cases whole with
      | nil => exact ⟨'.', fraction ++ power, rfl, .inr (.inl rfl)⟩
      | cons c cs =>
        have hc := (isDigits_iff.mp hdigits).2 c (by simp)
        exact ⟨c, _, rfl, .inl hc⟩

/-- A sign is told from what follows it. -/
theorem splitSign_append_of_isUnsigned {sign body : List Char} (hsign : IsSign sign)
    (hbody : IsUnsigned body) : (splitSign (sign ++ body)).2 = body := by
  obtain ⟨c, cs, rfl, hc⟩ := hbody.exists_eq_cons
  refine splitSign_append hsign cs ⟨?_, ?_⟩
  · rintro rfl
    exact absurd hc (by decide)
  · rintro rfl
    exact absurd hc (by decide)

/-! ### What is read -/

theorem contains_infinityNames_iff {body : List Char} :
    infinityNames.contains (String.ofList (body.map Char.toLower)) ↔
      IsNamed "inf" body ∨ IsNamed "infinity" body := by
  simp [infinityNames, IsNamed, String.ext_iff]

theorem contains_undefinedNames_iff {body : List Char} :
    undefinedNames.contains (String.ofList (body.map Char.toLower)) ↔ IsNamed "nan" body := by
  simp [undefinedNames, IsNamed, String.ext_iff]

variable {text : String} {x : Float}

/-- What is read from a text: its sign is taken off, and then it is a name or a magnitude. -/
theorem ofText?_eq_some (h : ofText? text = some x) :
    ∃ sign body, text.toList = sign ++ body ∧ IsSign sign ∧
      ((IsNamed "inf" body ∨ IsNamed "infinity" body) ∧ ¬x.isNaN ∨
        IsNamed "nan" body ∧ x.isNaN ∨ IsMagnitude body ∧ ¬x.isNaN) := by
  obtain ⟨sign, hsign, htext⟩ := exists_isSign_append text.toList
  refine ⟨sign, (splitSign text.toList).2, htext, hsign, ?_⟩
  rw [ofText?] at h
  simp only at h
  split_ifs at h with hinfinity hundefined
  · refine .inl ⟨contains_infinityNames_iff.mp hinfinity, ?_⟩
    rw [← Option.some.inj h, isNaN_ofRank_iff (by decide)]
    exact Nat.lt_irrefl _
  · refine .inr (.inl ⟨contains_undefinedNames_iff.mp hundefined, ?_⟩)
    rw [← Option.some.inj h, isNaN_ofRank_iff (by decide)]
    decide
  · obtain ⟨d, hread, rfl⟩ := Option.map_eq_some_iff.mp h
    refine .inr (.inr ⟨exists_magnitude?_eq_some_iff.mp ⟨d, hread⟩, ?_⟩)
    have hinfinity : infinityRank < signBit := by decide
    rw [isNaN_ofRank_iff (Nat.lt_of_le_of_lt d.rank_le hinfinity)]
    exact Nat.not_lt.mpr d.rank_le

/-- **The notation is exact**: the texts in it are those that are read. -/
theorem exists_ofText?_eq_some_iff : (∃ x, ofText? text = some x) ↔ IsReadable text.toList := by
  constructor
  · rintro ⟨x, h⟩
    obtain ⟨sign, body, htext, hsign, ⟨hname, -⟩ | ⟨hname, -⟩ | ⟨hmagnitude, -⟩⟩ := ofText?_eq_some h
    · exact ⟨sign, body, htext, hsign, .infinity hname⟩
    · exact ⟨sign, body, htext, hsign, .undefined hname⟩
    · exact ⟨sign, body, htext, hsign, .magnitude hmagnitude⟩
  · rintro ⟨sign, body, htext, hsign, hbody⟩
    have hsplit := splitSign_append_of_isUnsigned hsign hbody
    rw [ofText?, htext]
    simp only [hsplit]
    split_ifs with hinfinity hundefined
    · exact ⟨_, rfl⟩
    · exact ⟨_, rfl⟩
    · rw [contains_infinityNames_iff] at hinfinity
      rw [contains_undefinedNames_iff] at hundefined
      cases hbody with
      | infinity hname => exact absurd hname hinfinity
      | undefined hname => exact absurd hname hundefined
      | magnitude hmagnitude =>
        obtain ⟨d, hread⟩ := exists_magnitude?_eq_some_iff.mpr hmagnitude
        exact ⟨_, by rw [hread, Option.map_some]⟩

/-- The value that is not a number is read from its own name only. -/
theorem isNaN_iff_of_ofText?_eq_some (h : ofText? text = some x) :
    x.isNaN ↔ IsUndefined text.toList := by
  constructor
  · intro hx
    obtain ⟨sign, body, htext, hsign, ⟨-, hnumber⟩ | ⟨hname, -⟩ | ⟨-, hnumber⟩⟩ := ofText?_eq_some h
    · exact absurd hx hnumber
    · exact ⟨sign, body, htext, hsign, hname⟩
    · exact absurd hx hnumber
  · rintro ⟨sign, body, htext, hsign, hname⟩
    have hsplit := splitSign_append_of_isUnsigned hsign (.undefined hname)
    rw [IsNamed] at hname
    rw [ofText?, htext] at h
    simp only [hsplit, hname] at h
    rw [if_neg (by decide), if_pos (by decide)] at h
    rw [← Option.some.inj h, isNaN_ofRank_iff (by decide)]
    decide

/-- A numeral is not the name of that value: behind its sign stands a digit. -/
theorem IsNumeral.not_isUndefined {text : List Char} (h : IsNumeral text) : ¬IsUndefined text := by
  rintro ⟨sign, body, rfl, hsign, hname⟩
  obtain ⟨sign', whole, fraction, htext, hsign', hwhole, -⟩ := h
  obtain ⟨c, cs, rfl, hc⟩ := exists_cons_of_isDigits hwhole
  have hbody := splitSign_append_of_isUnsigned hsign (.undefined hname)
  rw [htext, List.cons_append, splitSign_append hsign' _ (ne_sign_of_isDigit hc)] at hbody
  subst hbody
  obtain ⟨d, ds, hcons, hd⟩ : ∃ d ds, c :: (cs ++ fraction) = d :: ds ∧ d.toLower = 'n' :=
    hname.exists_eq_cons rfl
  rw [← (List.cons.inj hcons).1, toLower_of_isDigit hc] at hd
  exact ne_of_isDigit hc rfl hd

/-- A numeral is read as a number. -/
theorem exists_ofText?_eq_some (h : IsNumeral text.toList) :
    ∃ x, ofText? text = some x ∧ ¬x.isNaN := by
  obtain ⟨x, hx⟩ := exists_ofText?_eq_some_iff.mpr h.isReadable
  refine ⟨x, hx, ?_⟩
  rw [isNaN_iff_of_ofText?_eq_some hx]
  exact h.not_isUndefined

end Number

end ListLanguage
