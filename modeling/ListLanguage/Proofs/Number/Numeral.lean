import ListLanguage.Number.Decimal

/-!
# Numerals

A **numeral** is an optional sign, digits, and optionally a point followed by digits. This is the
notation itself; `isNumeral_iff` says that `isNumeral` recognises it by cutting a text where its
digits end.
-/

namespace ListLanguage

namespace Number

/-- A sign, which may be missing. -/
def IsSign (sign : List Char) : Prop :=
  sign = [] ∨ sign = ['-'] ∨ sign = ['+']

/-- A point followed by digits, which may be missing. -/
def IsFraction (fraction : List Char) : Prop :=
  fraction = [] ∨ ∃ digits, fraction = '.' :: digits ∧ isDigits digits

/-- The notation of the numerals of the language. -/
def IsNumeral (text : List Char) : Prop :=
  ∃ sign whole fraction, text = sign ++ (whole ++ fraction) ∧
    IsSign sign ∧ isDigits whole ∧ IsFraction fraction

theorem isDigits_iff {text : List Char} : isDigits text ↔ text ≠ [] ∧ ∀ c ∈ text, c.isDigit := by
  simp [isDigits]

/-- Digits have a first one, and more digits or nothing behind it. -/
theorem exists_cons_of_isDigits {text : List Char} (h : isDigits text) :
    ∃ c cs, text = c :: cs ∧ c.isDigit := by
  obtain ⟨hne, hall⟩ := isDigits_iff.mp h
  obtain ⟨c, cs, rfl⟩ := List.exists_cons_of_ne_nil hne
  exact ⟨c, cs, rfl, hall c List.mem_cons_self⟩

theorem ne_of_isDigit {c d : Char} (hc : c.isDigit) (hd : d.isDigit = false) : c ≠ d := by
  rintro rfl
  rw [hc] at hd
  cases hd

/-! ### Signs -/

theorem splitSign_of_ne {c : Char} (cs : List Char) (hc : c ≠ '-' ∧ c ≠ '+') :
    splitSign (c :: cs) = (false, c :: cs) := by
  unfold splitSign
  split
  · rename_i heq
    exact absurd (List.cons.inj heq).1 hc.1
  · rename_i heq
    exact absurd (List.cons.inj heq).1 hc.2
  · rfl

theorem ne_sign_of_isDigit {c : Char} (h : c.isDigit) : c ≠ '-' ∧ c ≠ '+' :=
  ⟨ne_of_isDigit h rfl, ne_of_isDigit h rfl⟩

/-- The part behind the sign is what is left of a text when its sign is taken off. -/
theorem exists_isSign_append (text : List Char) :
    ∃ sign, IsSign sign ∧ text = sign ++ (splitSign text).2 := by
  unfold splitSign
  split
  · exact ⟨['-'], .inr (.inl rfl), rfl⟩
  · exact ⟨['+'], .inr (.inr rfl), rfl⟩
  · exact ⟨[], .inl rfl, rfl⟩

/-- A sign is taken off where no second one follows. -/
theorem splitSign_append {sign : List Char} (hsign : IsSign sign) {c : Char} (cs : List Char)
    (hc : c ≠ '-' ∧ c ≠ '+') : (splitSign (sign ++ c :: cs)).2 = c :: cs := by
  rcases hsign with rfl | rfl | rfl
  · rw [List.nil_append, splitSign_of_ne cs hc]
  · rfl
  · rfl

/-! ### Runs of digits -/

/-- Digits go on with more digits. -/
theorem isDigits_append {as bs : List Char} (has : ∀ c ∈ as, c.isDigit) (hbs : ∀ c ∈ bs, c.isDigit)
    (hne : as ++ bs ≠ []) : isDigits (as ++ bs) := by
  refine isDigits_iff.mpr ⟨hne, fun c hc => ?_⟩
  rcases List.mem_append.mp hc with hc | hc
  · exact has c hc
  · exact hbs c hc

/-- What can follow a run of digits: a text that does not go on with a digit. -/
def StopsDigits (rest : List Char) : Prop :=
  ∀ c ∈ rest.head?, c.isDigit = false

theorem stopsDigits_nil : StopsDigits [] := by
  simp [StopsDigits]

theorem stopsDigits_cons {c : Char} (cs : List Char) (h : c.isDigit = false) :
    StopsDigits (c :: cs) := by
  simp [StopsDigits, h]

theorem IsFraction.stopsDigits {fraction : List Char} (h : IsFraction fraction) :
    StopsDigits fraction := by
  rcases h with rfl | ⟨digits, rfl, -⟩
  · exact stopsDigits_nil
  · exact stopsDigits_cons digits rfl

/-- A run of digits is found up to what stops it. -/
theorem takeWhile_isDigit_append {digits rest : List Char} (hdigits : ∀ c ∈ digits, c.isDigit)
    (hrest : StopsDigits rest) :
    (digits ++ rest).takeWhile Char.isDigit = digits ∧
      (digits ++ rest).dropWhile Char.isDigit = rest := by
  rw [List.takeWhile_append_of_pos hdigits, List.dropWhile_append_of_pos hdigits]
  cases rest with
  | nil => simp
  | cons c cs =>
    have hc : c.isDigit = false := hrest c rfl
    simp [hc]

/-! ### The notation -/

/-- The numerals are the texts that `isNumeral` recognises. -/
theorem isNumeral_iff {text : List Char} : isNumeral text ↔ IsNumeral text := by
  constructor
  · intro h
    obtain ⟨sign, hsign, htext⟩ := exists_isSign_append text
    have hbody := List.takeWhile_append_dropWhile (p := Char.isDigit) (l := (splitSign text).2)
    refine ⟨sign, (splitSign text).2.takeWhile Char.isDigit,
      (splitSign text).2.dropWhile Char.isDigit, by rw [hbody, ← htext], hsign, ?_⟩
    have hall : ∀ c ∈ (splitSign text).2.takeWhile Char.isDigit, c.isDigit :=
      List.all_eq_true.mp List.all_takeWhile
    -- the sign, the digits and what stops them are the parts of the numeral
    simp only [isNumeral] at h
    split at h
    · rename_i hrest
      rw [hrest]
      exact ⟨isDigits_iff.mpr ⟨by simpa using h, hall⟩, .inl rfl⟩
    · rename_i digits hrest
      rw [Bool.and_eq_true] at h
      rw [hrest]
      exact ⟨isDigits_iff.mpr ⟨by simpa using h.1, hall⟩, .inr ⟨digits, rfl, h.2⟩⟩
    · cases h
  · rintro ⟨sign, whole, fraction, rfl, hsign, hwhole, hfraction⟩
    obtain ⟨hne, hall⟩ := isDigits_iff.mp hwhole
    obtain ⟨htake, hdrop⟩ := takeWhile_isDigit_append hall hfraction.stopsDigits
    obtain ⟨c, cs, rfl, hc⟩ := exists_cons_of_isDigits hwhole
    simp only [isNumeral]
    rw [List.cons_append, splitSign_append hsign (cs ++ fraction) (ne_sign_of_isDigit hc),
      ← List.cons_append, htake, hdrop]
    rcases hfraction with rfl | ⟨digits, rfl, hdigits⟩
    · simp
    · simpa using hdigits

end Number

end ListLanguage
