import ListLanguage.Error
import ListLanguage.Value

/-!
# The elements of a list argument

An operation can ask for a list whose elements are all of one kind. `Elements.ofValues?` checks all
values before any of them is used, and reports the first one that does not fit. Values that fit are
kept as they are; each is seen as an element of its kind when it is taken. They can be taken from
both ends: `next` takes the first one, `nextBack` the last.
-/

namespace ListLanguage

/-- The kinds of elements that can be asked for. -/
inductive ElementKind where
  | any
  | number
  /-- Strings, which are seen as their contents. -/
  | string
  deriving DecidableEq

namespace ElementKind

/-- What an element of a kind is seen as. -/
@[reducible]
def Item : ElementKind → Type
  | any => Value
  | number => Float
  | string => String

/-- What an element of a kind is called in a message. -/
def name : ElementKind → String
  | any => "value"
  | number => "number"
  | string => "string"

/-- Whether a value fits a kind. -/
def fits : ElementKind → Value → Bool
  | any, _ => true
  | number, .number _ => true
  | string, .string _ => true
  | _, _ => false

/-- A value as an element of a kind, if it fits. -/
def project : (kind : ElementKind) → Value → Option kind.Item
  | any, v => some v
  | number, .number x => some x
  | string, v@(.string _) => v.content?
  | _, _ => none

/-- A value as an element of a kind, or the reason why it does not fit. -/
def convert (kind : ElementKind) (v : Value) : Except EvalError kind.Item :=
  match kind.project v with
  | some item => .ok item
  | none => .error (.expected kind.name v.typeName)

/-- The values that fit a kind are those that can be seen as its elements. -/
@[simp]
theorem isSome_project (kind : ElementKind) (v : Value) :
    (kind.project v).isSome = kind.fits v := by
  cases kind <;> cases v <;> rfl

theorem exists_project_eq_some {kind : ElementKind} {v : Value} (h : kind.fits v) :
    ∃ item, kind.project v = some item := by
  rwa [← Option.isSome_iff_exists, isSome_project]

end ElementKind

/-- Values that fit a kind, open at both ends. -/
structure Elements (kind : ElementKind) where
  /-- The values that have not been taken. -/
  values : List Value
  fits : ∀ v ∈ values, kind.fits v

namespace Elements

variable {kind : ElementKind}

/-- The values as elements of a kind, if all of them fit; or a report of the first that does not. -/
def ofValues? (kind : ElementKind) (values : List Value) : Except EvalError (Elements kind) :=
  match h : values.find? fun v => !kind.fits v with
  | some misfit => .error (.expected kind.name misfit.typeName)
  | none => .ok ⟨values, by simpa using h⟩

/-- Some of the values. -/
def restrict (es : Elements kind) (values : List Value) (h : values ⊆ es.values) :
    Elements kind :=
  ⟨values, fun v hv => es.fits v (h hv)⟩

/-- The elements, as they are seen. -/
def toList (es : Elements kind) : List kind.Item :=
  es.values.filterMap kind.project

/-- The number of values that have not been taken. -/
def size (es : Elements kind) : Nat :=
  es.values.length

/-- The first element and the ones after it. -/
def next (es : Elements kind) : Option (kind.Item × Elements kind) :=
  (es.values.head?.bind kind.project).map fun item =>
    (item, es.restrict es.values.tail (List.tail_sublist es.values).subset)

/-- The last element and the ones before it. -/
def nextBack (es : Elements kind) : Option (kind.Item × Elements kind) :=
  (es.values.getLast?.bind kind.project).map fun item =>
    (item, es.restrict es.values.dropLast (List.dropLast_subset es.values))

/-- Values that fit are taken as they are. -/
theorem ofValues?_eq_ok_iff {values : List Value} {es : Elements kind} :
    ofValues? kind values = .ok es ↔ es.values = values := by
  constructor
  · intro h
    rw [ofValues?] at h
    split at h
    · cases h
    · cases h
      rfl
  · rintro rfl
    rw [ofValues?]
    split
    · rename_i misfit hfind
      have hmem : misfit ∈ es.values := List.mem_of_find?_eq_some hfind
      have hmisfit : kind.fits misfit = false := by simpa using List.find?_some hfind
      rw [es.fits misfit hmem] at hmisfit
      cases hmisfit
    · rfl

/-- The first value that does not fit is reported. -/
theorem ofValues?_eq_error_iff {values : List Value} {e : EvalError} :
    ofValues? kind values = .error e ↔
      ∃ misfit, (values.find? fun v => !kind.fits v) = some misfit ∧
        e = .expected kind.name misfit.typeName := by
  rw [ofValues?]
  split
  · rename_i misfit hfind
    simp [hfind, eq_comm]
  · rename_i hfind
    simp [hfind]

/-- Where any value fits, the elements are the values. -/
@[simp]
theorem toList_any (es : Elements .any) : es.toList = es.values :=
  List.filterMap_some

/-- Every value is seen as one element. -/
@[simp]
theorem length_toList (es : Elements kind) : es.toList.length = es.size := by
  have h : ∀ v ∈ es.values, (kind.project v).isSome := fun v hv => by simpa using es.fits v hv
  exact List.filterMap_length_eq_length.mpr h

/-- What `next` takes and leaves is the sequence. -/
theorem toList_of_next_eq_some {es rest : Elements kind} {item : kind.Item}
    (h : es.next = some (item, rest)) : es.toList = item :: rest.toList := by
  obtain ⟨first, hfirst, hpair⟩ := Option.map_eq_some_iff.1 h
  obtain ⟨v, hv, hitem⟩ := Option.bind_eq_some_iff.1 hfirst
  obtain ⟨vs, hvs⟩ := List.head?_eq_some_iff.1 hv
  cases hpair
  simp [toList, restrict, hvs, hitem]

/-- What `nextBack` leaves and takes is the sequence. -/
theorem toList_of_nextBack_eq_some {es rest : Elements kind} {item : kind.Item}
    (h : es.nextBack = some (item, rest)) : es.toList = rest.toList ++ [item] := by
  obtain ⟨last, hlast, hpair⟩ := Option.map_eq_some_iff.1 h
  obtain ⟨v, hv, hitem⟩ := Option.bind_eq_some_iff.1 hlast
  obtain ⟨vs, hvs⟩ := List.getLast?_eq_some_iff.1 hv
  cases hpair
  simp [toList, restrict, hvs, hitem]

/-- `next` finds nothing only in the empty sequence. -/
@[simp]
theorem next_eq_none_iff {es : Elements kind} : es.next = none ↔ es.values = [] := by
  rw [next, Option.map_eq_none_iff]
  cases h : es.values.head? with
  | none => simpa using h
  | some v =>
    have hv : v ∈ es.values := List.mem_of_head? h
    obtain ⟨item, hitem⟩ := ElementKind.exists_project_eq_some (es.fits v hv)
    simp [hitem, List.ne_nil_of_mem hv]

/-- `nextBack` finds nothing only in the empty sequence. -/
@[simp]
theorem nextBack_eq_none_iff {es : Elements kind} : es.nextBack = none ↔ es.values = [] := by
  rw [nextBack, Option.map_eq_none_iff]
  cases h : es.values.getLast? with
  | none => simpa using h
  | some v =>
    have hv : v ∈ es.values := List.mem_of_getLast? h
    obtain ⟨item, hitem⟩ := ElementKind.exists_project_eq_some (es.fits v hv)
    simp [hitem, List.ne_nil_of_mem hv]

end Elements

end ListLanguage
