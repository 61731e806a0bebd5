import Mathlib.Data.List.Forall2
import ListLanguage.Value.Elements

/-!
# Taking elements from both ends

What a value is **seen** as, where elements of a kind are asked for, is a relation between values and
elements. A string is seen as what its stored text **holds**. `Elements.ofValues?` succeeds exactly if
every value is seen as something, and otherwise tells what the first one that is not is **called**.

After that, taking cannot fail before the values are used up. A **walk** calls `next` and `nextBack`
in any order and keeps what it gets. One call moves at most one element from the rest to one of the
two ends, so what was got from the front, the rest, and what was got from the back read backwards are
the whole sequence after every call (`Walk.whole_run`).
-/

namespace ListLanguage

/-! ### Contents and names -/

/-- What a stored text **holds**: all of it but the first and the last character, and nothing if it has
fewer than two characters. -/
inductive Text.Holds : List Char → List Char → Prop where
  | inside (first last : Char) (content : List Char) : Holds (first :: (content ++ [last])) content
  | nothing {stored : List Char} : stored.length < 2 → Holds stored []

theorem Text.holds_iff {stored content : String} :
    Holds stored.toList content.toList ↔ unquote stored = content := by
  rw [← String.toList_inj, unquote, String.toList_ofList]
  generalize stored.toList = cs
  generalize content.toList = ds
  constructor
  · rintro (⟨first, last, content⟩ | hshort)
    · simp
    · have hlength : cs.tail.dropLast.length = 0 := by
        rw [List.length_dropLast, List.length_tail]
        omega
      exact List.length_eq_zero_iff.mp hlength
  · rintro rfl
    cases cs with
    | nil => exact .nothing (by simp)
    | cons first rest =>
      rcases List.eq_nil_or_concat rest with rfl | ⟨content, last, rfl⟩
      · exact .nothing (by simp)
      · simpa using Holds.inside first last content

/-- What a value is **called** in a message. -/
inductive Value.IsCalled : Value → String → Prop where
  | number (x : Float) : IsCalled (.number x) "number"
  | string (stored : String) : IsCalled (.string stored) "string"
  | list (elements : List Value) : IsCalled (.list elements) "list"
  | callable : IsCalled .callable "callable"

theorem Value.isCalled_iff {v : Value} {name : String} : v.IsCalled name ↔ v.typeName = name := by
  constructor
  · rintro (_ | _ | _ | _) <;> rfl
  · rintro rfl
    cases v <;> constructor

namespace ElementKind

/-- What an element of a kind is **called** in a message. -/
inductive IsCalled : ElementKind → String → Prop where
  | any : IsCalled any "value"
  | number : IsCalled number "number"
  | string : IsCalled string "string"

theorem isCalled_iff {kind : ElementKind} {name : String} : kind.IsCalled name ↔ kind.name = name := by
  constructor
  · rintro (_ | _ | _) <;> rfl
  · rintro rfl
    cases kind <;> constructor

/-! ### What fits a kind -/

/-- What a value is **seen** as, as an element of a kind. -/
inductive Sees : (kind : ElementKind) → Value → kind.Item → Prop where
  | any (v : Value) : Sees any v v
  | number (x : Float) : Sees number (.number x) x
  | string {stored content : String} : Text.Holds stored.toList content.toList →
    Sees string (.string stored) content

/-- The **first misfit** of some values: it is not seen as an element of a kind, and all values before
it are. -/
def FirstMisfit (kind : ElementKind) (values : List Value) (misfit : Value) : Prop :=
  ∃ front back, values = front ++ misfit :: back ∧ (∀ v ∈ front, ∃ item, kind.Sees v item) ∧
    ¬∃ item, kind.Sees misfit item

/-- The reason for which a kind **refuses** some values: it tells what was asked for and what the first
misfit is. -/
inductive Refuses (kind : ElementKind) (values : List Value) : String → Prop where
  | misfit {misfit : Value} {wanted found : String} : kind.FirstMisfit values misfit →
    kind.IsCalled wanted → misfit.IsCalled found →
    Refuses kind values s!"expected {wanted}, found {found}"

variable {kind : ElementKind} {v : Value} {values : List Value}

theorem project_eq_some_iff {item : kind.Item} :
    kind.project v = some item ↔ kind.Sees v item := by
  constructor
  · intro h
    cases kind with
    | any =>
      cases h
      exact .any v
    | number =>
      cases v <;> cases h
      exact .number _
    | string =>
      cases v <;> cases h
      exact .string (Text.holds_iff.mpr rfl)
  · rintro (_ | _ | hholds)
    · rfl
    · rfl
    · exact congrArg some (Text.holds_iff.mp hholds)

theorem fits_iff : kind.fits v ↔ ∃ item, kind.Sees v item := by
  rw [← isSome_project, Option.isSome_iff_exists]
  exact exists_congr fun item => project_eq_some_iff

theorem fits_eq_false_iff : kind.fits v = false ↔ ¬∃ item, kind.Sees v item := by
  rw [← fits_iff, Bool.not_eq_true]

/-- The first misfit is what the check finds. -/
theorem find?_eq_some_iff {misfit : Value} :
    (values.find? fun v => !kind.fits v) = some misfit ↔ kind.FirstMisfit values misfit := by
  simp only [List.find?_eq_some_iff_append, Bool.not_eq_true', Bool.not_not, fits_eq_false_iff,
    fits_iff, FirstMisfit]
  constructor
  · rintro ⟨hmisfit, front, back, hvalues, hfront⟩
    exact ⟨front, back, hvalues, hfront, hmisfit⟩
  · rintro ⟨front, back, hvalues, hfront, hmisfit⟩
    exact ⟨hmisfit, front, back, hvalues, hfront⟩

end ElementKind

/-- The two ends of a sequence. -/
inductive Side where
  | front
  | back

namespace Elements

variable {kind : ElementKind}

/-- Values are taken as elements if each of them is seen as one. -/
theorem exists_ofValues?_eq_ok_iff {values : List Value} :
    (∃ es, ofValues? kind values = .ok es) ↔ ∀ v ∈ values, ∃ item, kind.Sees v item := by
  simp only [ofValues?_eq_ok_iff, ← ElementKind.fits_iff]
  constructor
  · rintro ⟨es, rfl⟩
    exact es.fits
  · intro h
    exact ⟨⟨values, h⟩, rfl⟩

/-- Values are refused for the first of them that is not seen as an element. -/
theorem ofValues?_eq_error_iff_refuses {values : List Value} {e : EvalError} :
    ofValues? kind values = .error e ↔ ∃ text, kind.Refuses values text ∧ e = .typeMismatch text := by
  simp only [ofValues?_eq_error_iff, ElementKind.find?_eq_some_iff]
  constructor
  · rintro ⟨misfit, hmisfit, rfl⟩
    exact ⟨_, .misfit hmisfit (ElementKind.isCalled_iff.mpr rfl) (Value.isCalled_iff.mpr rfl), rfl⟩
  · rintro ⟨text, hrefuses, rfl⟩
    obtain ⟨hmisfit, hwanted, hfound⟩ := hrefuses
    obtain rfl := ElementKind.isCalled_iff.mp hwanted
    obtain rfl := Value.isCalled_iff.mp hfound
    exact ⟨_, hmisfit, rfl⟩

/-- The elements are what the values are seen as. -/
theorem forall₂_sees_toList (es : Elements kind) : List.Forall₂ kind.Sees es.values es.toList := by
  obtain ⟨values, hfits⟩ := es
  induction values with
  | nil => exact .nil
  | cons v values ih =>
    have hv : kind.fits v := hfits v List.mem_cons_self
    have hvalues : ∀ u ∈ values, kind.fits u := fun u hu => hfits u (List.mem_cons_of_mem v hu)
    obtain ⟨item, hitem⟩ := ElementKind.exists_project_eq_some hv
    have hlist : toList ⟨v :: values, hfits⟩ = item :: toList ⟨values, hvalues⟩ :=
      List.filterMap_cons_some hitem
    rw [hlist]
    exact .cons (ElementKind.project_eq_some_iff.mp hitem) (ih hvalues)

/-! ### Walks -/

/-- Takes the element at one end. -/
def take (es : Elements kind) : Side → Option (kind.Item × Elements kind)
  | .front => es.next
  | .back => es.nextBack

/-- What some calls of `next` and `nextBack` have got so far. -/
structure Walk (kind : ElementKind) where
  /-- What was got from the front, in the order of the calls. -/
  front : List kind.Item
  /-- What has not been taken. -/
  rest : Elements kind
  /-- What was got from the back, in the order of the calls. -/
  back : List kind.Item

/-- The walk that has not called anything. -/
def walk (es : Elements kind) : Walk kind :=
  ⟨[], es, []⟩

theorem take_eq_none_iff {es : Elements kind} {side : Side} :
    es.take side = none ↔ es.toList = [] := by
  have hempty : es.values = [] ↔ es.toList = [] := by
    rw [← List.length_eq_zero_iff, ← List.length_eq_zero_iff, length_toList, size]
  cases side with
  | front => rw [take, next_eq_none_iff, hempty]
  | back => rw [take, nextBack_eq_none_iff, hempty]

namespace Walk

/-- The sequence that a walk goes through. -/
def whole (w : Walk kind) : List kind.Item :=
  w.front ++ w.rest.toList ++ w.back.reverse

/-- Takes the element at one end, if there is one. -/
def step (w : Walk kind) (side : Side) : Walk kind :=
  match side, w.rest.take side with
  | .front, some (item, rest) => { w with front := w.front ++ [item], rest }
  | .back, some (item, rest) => { w with back := w.back ++ [item], rest }
  | _, none => w

/-- Takes one element after the other, at the given ends. -/
def run (w : Walk kind) (calls : List Side) : Walk kind :=
  calls.foldl step w

/-- **Step**: a call neither loses nor repeats an element. -/
theorem whole_step (w : Walk kind) (side : Side) : (w.step side).whole = w.whole := by
  cases side with
  | front =>
    cases h : w.rest.next with
    | none => simp [step, take, h]
    | some taken =>
      have hrest : w.rest.toList = taken.1 :: taken.2.toList := toList_of_next_eq_some h
      simp [step, take, h, whole, hrest]
  | back =>
    cases h : w.rest.nextBack with
    | none => simp [step, take, h]
    | some taken =>
      have hrest : w.rest.toList = taken.2.toList ++ [taken.1] := toList_of_nextBack_eq_some h
      simp [step, take, h, whole, hrest]

/-- **Run**: calls in any order neither lose nor repeat an element. -/
theorem whole_run (w : Walk kind) (calls : List Side) : (w.run calls).whole = w.whole := by
  induction calls generalizing w with
  | nil => rfl
  | cons side calls ih => exact (ih (w.step side)).trans (whole_step w side)

/-- Where nothing is left, further calls change nothing. -/
theorem run_of_toList_eq_nil {w : Walk kind} (h : w.rest.toList = []) (calls : List Side) :
    w.run calls = w := by
  induction calls with
  | nil => rfl
  | cons side calls ih =>
    have hnone : w.rest.take side = none := take_eq_none_iff.mpr h
    have hstep : w.step side = w := by
      cases side <;> simp [step, hnone]
    rw [run, List.foldl_cons, hstep]
    exact ih

end Walk

/-- **Typed elements.** Values are taken as elements of a kind exactly if each of them is seen as one,
and otherwise the error tells what the first one that is not is called. And then, after calls of `next`
and `nextBack` in any order, what was got from the front, what has not been taken, and what was got
from the back read backwards are, in order, what the values are seen as; the size is the number of
elements that have not been taken; and a call gets nothing exactly if all elements are taken, which
stays so whatever is called later. -/
theorem taking_exact (kind : ElementKind) (values : List Value) :
    ((∃ es, ofValues? kind values = .ok es) ↔ ∀ v ∈ values, ∃ item, kind.Sees v item) ∧
      (∀ e, ofValues? kind values = .error e ↔ ∃ text, kind.Refuses values text ∧
        e = .typeMismatch text) ∧
      ∀ es, ofValues? kind values = .ok es → ∃ items, List.Forall₂ kind.Sees values items ∧
        ∀ calls,
          (es.walk.run calls).front ++ (es.walk.run calls).rest.toList ++
              (es.walk.run calls).back.reverse = items ∧
            (es.walk.run calls).rest.size = (es.walk.run calls).rest.toList.length ∧
            ∀ side,
              ((es.walk.run calls).rest.take side = none ↔
                (es.walk.run calls).rest.toList = []) ∧
              ((es.walk.run calls).rest.take side = none →
                ∀ later other, (es.walk.run (calls ++ later)).rest.take other = none) := by
  refine ⟨exists_ofValues?_eq_ok_iff, fun e => ofValues?_eq_error_iff_refuses,
    fun es hes => ⟨es.toList, ?_, fun calls => ?_⟩⟩
  · have hvalues : es.values = values := ofValues?_eq_ok_iff.mp hes
    rw [← hvalues]
    exact es.forall₂_sees_toList
  · have hwhole : (es.walk.run calls).whole = es.toList := by
      rw [Walk.whole_run]
      simp [walk, Walk.whole]
    refine ⟨hwhole, (length_toList _).symm, fun side => ⟨take_eq_none_iff, fun hnone => ?_⟩⟩
    intro later other
    have hempty : (es.walk.run calls).rest.toList = [] := take_eq_none_iff.mp hnone
    have hlater : es.walk.run (calls ++ later) = es.walk.run calls := by
      rw [Walk.run, List.foldl_append]
      exact Walk.run_of_toList_eq_nil hempty later
    rw [hlater]
    exact take_eq_none_iff.mpr hempty

end Elements

end ListLanguage
