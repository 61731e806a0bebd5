import ListLanguage.Proofs.Builtin.Outcome

/-!
# Joining strings part by part

`+` joins strings if its first argument is one. A joined string is quoted anew, and taking the quote
marks off gives back exactly what was put between them (`contentToJoin_ofContent`). So it makes no
difference whether some first arguments are joined before the others (`joinStrings_append`), also where
an argument is no string: it is the first such argument that is reported, and it is reported in the
same words wherever it stands.
-/

namespace ListLanguage

namespace Builtin

variable {vs : List Value} {v : Value} {stored : String}

/-! ### Joining -/

@[simp]
theorem contentToJoin_ofContent (content : String) :
    contentToJoin (.ofContent content) = .ok content := by
  rw [Value.ofContent, contentToJoin, Text.unquote_enquote]

/-- What is joined is a string. -/
theorem exists_eq_ofContent_of_joinStrings_eq_ok (h : joinStrings vs = .ok v) :
    ∃ content, v = .ofContent content := by
  obtain ⟨contents, -, hpure⟩ := Except.bind_eq_ok_iff.mp h
  exact ⟨String.join contents, (Except.ok.inj hpure).symm⟩

/-- Joining some values is joining a first part of them, and then the result with the rest. -/
theorem joinStrings_append (us vs : List Value) :
    joinStrings (us ++ vs) = joinStrings us >>= fun v => joinStrings (v :: vs) := by
  simp only [joinStrings, List.mapM_append]
  cases us.mapM contentToJoin with
  | error e => rfl
  | ok front =>
    have hfront : contentToJoin (.ofContent (String.join front)) = .ok (String.join front) :=
      contentToJoin_ofContent _
    have hcons : (Value.ofContent (String.join front) :: vs).mapM contentToJoin =
        (String.join front :: ·) <$> vs.mapM contentToJoin := by
      rw [List.mapM_cons, hfront]
      rfl
    change _ = (Value.ofContent (String.join front) :: vs).mapM contentToJoin >>= _
    rw [hcons]
    cases vs.mapM contentToJoin with
    | error e => rfl
    | ok back =>
      have hjoin : String.join (front ++ back) = String.join (String.join front :: back) := by
        rw [String.join_append, String.join_cons]
      exact congrArg (Except.ok ∘ Value.ofContent) hjoin

/-- Strings are joined by their contents. -/
theorem joinStrings_map_string (texts : List String) :
    joinStrings (texts.map .string) = .ok (.ofContent (String.join (texts.map Text.unquote))) := by
  have hcontents : (texts.map Value.string).mapM contentToJoin = .ok (texts.map Text.unquote) := by
    induction texts with
    | nil => rfl
    | cons text texts ih => exact Except.mapM_cons_eq_ok_iff.mpr ⟨_, _, rfl, ih, rfl⟩
  rw [joinStrings, hcontents]
  rfl

/-! ### Calling `+` -/

theorem apply_add (vs : List Value) : add.apply vs = joinOrAdd vs := by
  have hcount : ([] : List Parameter).length ≤ vs.length := Nat.zero_le vs.length
  have hargs : Arguments.withFurther? [] .any vs (List.length_take_of_le hcount) =
      .ok ((), ⟨vs, fun _ _ => rfl⟩) :=
    (Arguments.withFurther?_eq_ok_iff _).mpr ⟨.nil, rfl⟩
  rw [apply, Operation.variadic_of_length_le hcount, hargs]
  exact congrArg joinOrAdd (Elements.toList_any _)

/-- A call of `+` with enough arguments joins or adds them; no error of that is about a count. -/
theorem call_add (h : 2 ≤ vs.length) : add.call vs = joinOrAdd vs := by
  have hadmits : add.arity.admits vs.length := Arity.admits_atLeast.mpr h
  have hcall : add.call vs = (joinOrAdd vs).mapError (.named add.id) := by
    rw [call, Operation.withArity_of_admits hadmits, apply_add]
  rw [hcall]
  cases hresult : joinOrAdd vs with
  | ok v => rfl
  | error e =>
    obtain ⟨text, rfl⟩ := joinOrAdd_eq_error hresult
    rfl

theorem call_add_of_head? (hfirst : vs.head? = some (.string stored)) (h : 2 ≤ vs.length) :
    add.call vs = joinStrings vs := by
  obtain ⟨rest, rfl⟩ := List.head?_eq_some_iff.mp hfirst
  exact call_add h

theorem call_add_map_string {texts : List String} (h : 2 ≤ texts.length) :
    add.call (texts.map .string) = .ok (.ofContent (String.join (texts.map Text.unquote))) := by
  obtain ⟨first, rest, rfl⟩ := List.exists_cons_of_length_pos (Nat.zero_lt_of_lt h)
  have hlength : 2 ≤ ((first :: rest).map Value.string).length := by simpa using h
  rw [call_add_of_head? rfl hlength, joinStrings_map_string]

/-- The first of some arguments, at least two of them, may be joined before the others are. -/
theorem call_add_eq_bind_take {k : Nat} (hfirst : vs.head? = some (.string stored)) (hk : 2 ≤ k)
    (hlt : k < vs.length) :
    add.call vs = add.call (vs.take k) >>= fun v => add.call (v :: vs.drop k) := by
  have htake : (vs.take k).head? = some (.string stored) := by
    rw [List.head?_take, if_neg (by omega), hfirst]
  have hdrop : 0 < (vs.drop k).length := by
    rw [List.length_drop]
    omega
  have hregroup : joinStrings vs =
      joinStrings (vs.take k) >>= fun v => joinStrings (v :: vs.drop k) := by
    rw [← joinStrings_append, List.take_append_drop]
  rw [call_add_of_head? hfirst (by omega), call_add_of_head? htake (by simp; omega), hregroup]
  -- joining the first part has an outcome; if it is a value, it is a string, and `+` goes on joining
  cases hpart : joinStrings (vs.take k) with
  | error e => rfl
  | ok v =>
    obtain ⟨content, rfl⟩ := exists_eq_ofContent_of_joinStrings_eq_ok hpart
    have hstring : (Value.ofContent content :: vs.drop k).head? =
        some (.string (Text.enquote content)) := rfl
    have hlength : 2 ≤ (Value.ofContent content :: vs.drop k).length := Nat.succ_le_succ hdrop
    exact (call_add_of_head? hstring hlength).symm

/-- Some strings that stand side by side may be joined before the rest is. -/
theorem exists_call_add_block {front block back : List String} (hblock : 2 ≤ block.length)
    (hlt : block.length < (front ++ block ++ back).length) :
    ∃ joined, add.call (block.map .string) = .ok joined ∧
      add.call (front.map .string ++ joined :: back.map .string) =
        add.call ((front ++ block ++ back).map .string) := by
  refine ⟨_, call_add_map_string hblock, ?_⟩
  have houter : 2 ≤ (front ++ block ++ back).length := by omega
  have hinner (text : String) : 2 ≤ (front ++ text :: back).length := by
    simp only [List.length_append, List.length_cons] at hlt ⊢
    omega
  have hstored (content : String) :
      front.map Value.string ++ .ofContent content :: back.map .string =
        (front ++ Text.enquote content :: back).map .string := by
    simp [Value.ofContent]
  rw [hstored, call_add_map_string (hinner _), call_add_map_string houter]
  simp [String.join_append]

/-- **Regrouping.** If the first of some arguments is a string, calling `+` has the same outcome, a
value or an error, as calling it on at least two of them that come first, and then on the result and
the others. And if all arguments are strings, whatever their texts, some of them that stand side by
side, at least two and not all, may be joined before the rest is joined. -/
theorem call_add_regroup :
    (∀ (vs : List Value) (stored : String) (k : Nat), vs.head? = some (.string stored) →
      2 ≤ k → k < vs.length →
        add.call vs = add.call (vs.take k) >>= fun v => add.call (v :: vs.drop k)) ∧
      ∀ front block back : List String, 2 ≤ block.length →
        block.length < (front ++ block ++ back).length →
          ∃ joined, add.call (block.map .string) = .ok joined ∧
            add.call (front.map .string ++ joined :: back.map .string) =
              add.call ((front ++ block ++ back).map .string) := by
  constructor
  · intro vs stored k hfirst hk hlt
    exact call_add_eq_bind_take hfirst hk hlt
  · intro front block back hblock hlt
    exact exists_call_add_block hblock hlt

/-- Three strings in unlike marks, of which the last two are joined first; and two strings that are
joined before a number, which is refused either way. -/
theorem call_add_regroup_unlike_marks :
    (add.call [.string "'a'", .string "é", .number 1] =
        add.call [.string "'a'", .string "é"] >>= fun v => add.call [v, .number 1]) ∧
      ∃ joined, add.call [.string "é", .string "\"c\""] = .ok joined ∧
        add.call [.string "'a'", joined] =
          add.call [.string "'a'", .string "é", .string "\"c\""] :=
  ⟨call_add_regroup.1 [.string "'a'", .string "é", .number 1] "'a'" 2 rfl (by decide) (by decide),
    call_add_regroup.2 ["'a'"] ["é", "\"c\""] [] (by decide) (by decide)⟩

end Builtin

end ListLanguage
