import Mathlib.Data.List.Basic

/-!
# Results and errors, step by step

A sequence of steps that may fail yields a result when every step does, and an error when the first
step that fails raises it. The lemmas here take such a sequence apart.

Two sequences of steps may differ in the errors of one kind that their steps raise. Then they have
the same outcome unless the first of them fails with such an error (`Except.SameUnless`).
-/

namespace Except

variable {ε ε' α β : Type}

theorem bind_eq_ok_iff {x : Except ε α} {f : α → Except ε β} {b : β} :
    x >>= f = .ok b ↔ ∃ a, x = .ok a ∧ f a = .ok b := by
  cases x with
  | error e => simp [Bind.bind, Except.bind]
  | ok a => simp [Bind.bind, Except.bind]

theorem bind_eq_error_iff {x : Except ε α} {f : α → Except ε β} {e : ε} :
    x >>= f = .error e ↔ x = .error e ∨ ∃ a, x = .ok a ∧ f a = .error e := by
  cases x with
  | error e => simp [Bind.bind, Except.bind]
  | ok a => simp [Bind.bind, Except.bind]

theorem map_eq_ok_iff {x : Except ε α} {f : α → β} {b : β} :
    f <$> x = .ok b ↔ ∃ a, x = .ok a ∧ f a = b := by
  cases x <;> simp [Functor.map, Except.map]

theorem map_eq_error_iff {x : Except ε α} {f : α → β} {e : ε} :
    f <$> x = .error e ↔ x = .error e := by
  cases x <;> simp [Functor.map, Except.map]

theorem mapError_eq_ok_iff {x : Except ε α} {f : ε → ε'} {a : α} :
    x.mapError f = .ok a ↔ x = .ok a := by
  cases x <;> simp [Except.mapError]

theorem mapError_eq_error_iff {x : Except ε α} {f : ε → ε'} {e : ε'} :
    x.mapError f = .error e ↔ ∃ e', x = .error e' ∧ f e' = e := by
  cases x <;> simp [Except.mapError]

/-- A result can be compared with an error, also where results cannot be compared. -/
instance decidableEqError [DecidableEq ε] (x : Except ε α) (e : ε) : Decidable (x = .error e) :=
  match x with
  | .ok _ => isFalse nofun
  | .error _ => decidable_of_iff _ (Except.error.injEq _ _).to_iff.symm

/-- Of some steps in a row, one fails if the row does. -/
theorem exists_of_mapM_eq_error {f : α → Except ε β} {as : List α} {e : ε}
    (h : as.mapM f = .error e) : ∃ a ∈ as, f a = .error e := by
  induction as with
  | nil => cases h
  | cons a as ih =>
    rw [List.mapM_cons, bind_eq_error_iff] at h
    rcases h with ha | ⟨b, -, h⟩
    · exact ⟨a, List.mem_cons_self, ha⟩
    · rcases bind_eq_error_iff.mp h with has | ⟨bs, -, hpure⟩
      · obtain ⟨a', ha', hfail⟩ := ih has
        exact ⟨a', List.mem_cons_of_mem a ha', hfail⟩
      · cases hpure

/-- A row of steps yields a result if each of them does. -/
theorem mapM_cons_eq_ok_iff {f : α → Except ε β} {a : α} {as : List α} {bs : List β} :
    (a :: as).mapM f = .ok bs ↔ ∃ b rest, f a = .ok b ∧ as.mapM f = .ok rest ∧ bs = b :: rest := by
  rw [List.mapM_cons, bind_eq_ok_iff]
  refine exists_congr fun b => ?_
  rw [bind_eq_ok_iff]
  constructor
  · rintro ⟨hb, rest, hrest, hpure⟩
    exact ⟨rest, hb, hrest, (Except.ok.inj hpure).symm⟩
  · rintro ⟨rest, hb, hrest, rfl⟩
    exact ⟨hb, rest, hrest, rfl⟩

/-- Of some steps that pass a result on, one fails if they do. -/
theorem exists_of_foldlM_eq_error {f : β → α → Except ε β} {as : List α} {b : β} {e : ε}
    (h : as.foldlM f b = .error e) : ∃ b', ∃ a ∈ as, f b' a = .error e := by
  induction as generalizing b with
  | nil => cases h
  | cons a as ih =>
    rw [List.foldlM_cons] at h
    rcases bind_eq_error_iff.mp h with ha | ⟨b', -, has⟩
    · exact ⟨b, a, List.mem_cons_self, ha⟩
    · obtain ⟨b'', a', ha', hfail⟩ := ih has
      exact ⟨b'', a', List.mem_cons_of_mem a ha', hfail⟩

/-! ### The same outcome unless an error is of a kind -/

/-- The second of two results is the first one, unless that is an error of a kind. -/
def SameUnless (E : ε → Prop) (x x' : Except ε α) : Prop :=
  x' = x ∨ ∃ e, E e ∧ x = .error e

variable {E : ε → Prop} {x x' : Except ε α}

theorem SameUnless.refl (E : ε → Prop) (x : Except ε α) : SameUnless E x x :=
  .inl rfl

theorem SameUnless.of_error {e : ε} (he : E e) : SameUnless E (.error e) x' :=
  .inr ⟨e, he, rfl⟩

/-- Steps in sequence have the same outcome as long as each of them has. -/
theorem SameUnless.bind {f f' : α → Except ε β} (hx : SameUnless E x x')
    (hf : ∀ a, SameUnless E (f a) (f' a)) : SameUnless E (x >>= f) (x' >>= f') := by
  rcases hx with rfl | ⟨e, he, rfl⟩
  · cases x' with
    | error e => exact .refl E _
    | ok a => exact hf a
  · exact .of_error he

/-- A row of steps that pass a result on has the same outcome as long as each of them has. -/
theorem sameUnless_foldlM {f f' : β → α → Except ε β} (h : ∀ b a, SameUnless E (f b a) (f' b a))
    (as : List α) (b : β) : SameUnless E (as.foldlM f b) (as.foldlM f' b) := by
  induction as generalizing b with
  | nil => exact .refl E _
  | cons a as ih =>
    rw [List.foldlM_cons, List.foldlM_cons]
    exact (h b a).bind ih

/-- An error may be taken for an error of another type. -/
theorem SameUnless.mapError {f : ε → ε'} {E' : ε' → Prop} (hx : SameUnless E x x')
    (hf : ∀ e, E e → E' (f e)) : SameUnless E' (x.mapError f) (x'.mapError f) := by
  rcases hx with rfl | ⟨e, he, rfl⟩
  · exact .refl E' _
  · exact .of_error (hf e he)

end Except
