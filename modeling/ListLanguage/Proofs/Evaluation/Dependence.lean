import Mathlib.Data.Set.Basic
import ListLanguage.Host
import ListLanguage.Proofs.Evaluation.Congruence
import ListLanguage.Proofs.Except

/-!
# What an evaluation depends on

A form **mentions** the names of the symbols in it. Evaluating the form asks for nothing but the limit
on nesting and, for each name that it mentions, what the name is bound to and which operation the
host has under it. So in two environments that agree on these, a form evaluates to the same value or
fails with the same error, and it binds the same names to the same values on the way
(`Environment.eval_of_agreeOn`).

The bindings change while a form is evaluated, and the two environments may differ in names that are
not mentioned, so the law is proved for computations that run in **lockstep**
(`Evaluation.Lockstep`): whatever bindings they start from, as long as these agree on the names, they
overwrite them with the same entries. Then the bindings agree afterwards, too, and the next
computations can run in lockstep from there; so running in lockstep is a congruence
(`Evaluation.isCongruence_lockstep`).
-/

namespace ListLanguage

/-- The names that a form **mentions** are those of the symbols in it. -/
def Form.mentions (form : Form) : Set String :=
  {name | symbol name ∈ form.leaves}

/-- What lies in a list mentions no name that the list does not mention. -/
theorem Form.mentions_subset_of_mem {elements : List Form} {form : Form} (h : form ∈ elements) :
    form.mentions ⊆ (list elements).mentions :=
  fun _ hname => mem_leaves_list h hname

theorem Form.mem_mentions_symbol (name : String) : name ∈ (symbol name).mentions := by
  rw [mentions, leaves_of_depth_eq_zero (depth_symbol name)]
  exact List.mem_singleton_self _

/-! ### Bindings that agree -/

namespace Bindings

variable {names : Set String} {b b' : Bindings}

/-- Two bindings **agree** on some names if each of them stands for the same in both. -/
def AgreeOn (names : Set String) (b b' : Bindings) : Prop :=
  ∀ name ∈ names, b'[name]? = b[name]?

/-- Bindings that are overwritten with the same entries have a name as it was, both of them, or bound
to the same value. -/
theorem getElem?_overwrite_both (b b' : Bindings) (entries : List (String × Value)) (name : String) :
    ((b.overwrite entries)[name]? = b[name]? ∧ (b'.overwrite entries)[name]? = b'[name]?) ∨
      ∃ v, (b.overwrite entries)[name]? = some (.value v) ∧
        (b'.overwrite entries)[name]? = some (.value v) := by
  induction entries generalizing b b' with
  | nil => exact .inl ⟨rfl, rfl⟩
  | cons entry entries ih =>
    rcases ih (b.insert entry.1 (.value entry.2)) (b'.insert entry.1 (.value entry.2)) with
      ⟨hb, hb'⟩ | hvalue
    · by_cases hname : entry.1 = name
      · refine .inr ⟨entry.2, hb.trans ?_, hb'.trans ?_⟩
        · simp [hname]
        · simp [hname]
      · refine .inl ⟨hb.trans ?_, hb'.trans ?_⟩
        · simp [Std.ExtTreeMap.getElem?_insert, hname]
        · simp [Std.ExtTreeMap.getElem?_insert, hname]
    · exact .inr hvalue

/-- Bindings that agree still do when they are overwritten with the same entries. -/
theorem AgreeOn.overwrite (h : b.AgreeOn names b') (entries : List (String × Value)) :
    (b.overwrite entries).AgreeOn names (b'.overwrite entries) := by
  intro name hname
  rcases getElem?_overwrite_both b b' entries name with ⟨hb, hb'⟩ | ⟨v, hb, hb'⟩
  · rw [hb, hb', h name hname]
  · rw [hb, hb']

end Bindings

/-! ### Computations in lockstep -/

namespace Evaluation

open Bindings

variable {α β : Type} {names : Set String} {x x' : Evaluation α}

/-- Two computations run in **lockstep**, as far as some names go: from bindings that agree on the
names, they come to the same result or the same error, and bind the same names to the same values in
the same order. -/
def Lockstep (names : Set String) (x x' : Evaluation α) : Prop :=
  ∀ before before', before.AgreeOn names before' → ∃ entries : List (String × Value),
    (∃ a, x before = .ok a (before.overwrite entries) ∧
        x' before' = .ok a (before'.overwrite entries)) ∨
      ∃ e, x before = .error e (before.overwrite entries) ∧
        x' before' = .error e (before'.overwrite entries)

/-- Computations in sequence run in lockstep if they do one after the other. -/
theorem Lockstep.bind {f f' : α → Evaluation β} (hx : Lockstep names x x')
    (hf : ∀ a, Lockstep names (f a) (f' a)) : Lockstep names (x >>= f) (x' >>= f') := by
  intro before before' hagree
  simp only [Bind.bind, EStateM.bind]
  obtain ⟨entries, ⟨a, ha, ha'⟩ | ⟨e, he, he'⟩⟩ := hx before before' hagree
  · rw [ha, ha']
    obtain ⟨others, hrest⟩ := hf a _ _ (hagree.overwrite entries)
    refine ⟨entries ++ others, ?_⟩
    rwa [overwrite_append, overwrite_append]
  · rw [he, he']
    exact ⟨entries, .inr ⟨e, rfl, rfl⟩⟩

/-- Running in lockstep is a congruence, where the bindings agree that the computations read. -/
theorem isCongruence_lockstep (names : Set String) :
    IsCongruence (AgreeOn names) (Lockstep names) where
  pure a _ _ _ := ⟨[], .inl ⟨a, rfl, rfl⟩⟩
  throw e _ _ _ := ⟨[], .inr ⟨e, rfl, rfl⟩⟩
  bind := Lockstep.bind
  get_bind hf before before' hagree := hf before before' hagree before before' hagree

theorem lockstep_assign (name : String) (v : Value) :
    Lockstep names (assign name v) (assign name v) :=
  fun _ _ _ => ⟨[(name, v)], .inl ⟨v, rfl, rfl⟩⟩

end Evaluation

/-! ### The evaluator -/

namespace Dialect

open Bindings Evaluation Form

variable {names : Set String} {d d' : Dialect} {depth : Nat}

/-- Two dialects **agree** on some names if they have the same limit and their hosts have the same
operations under the names, or none in both. -/
structure AgreeOn (names : Set String) (d d' : Dialect) : Prop where
  limit : d'.limit = d.limit
  resolve? : ∀ name ∈ names, d'.resolve? name = d.resolve? name

/-- A head that mentions no other names calls the same in both dialects. -/
theorem AgreeOn.callee?_eq (hd : d.AgreeOn names d') {b b' : Bindings} (hb : b.AgreeOn names b')
    {head : Form} (hhead : head.mentions ⊆ names) : d'.callee? b' head = d.callee? b head := by
  cases head with
  | symbol name =>
    have hname := hhead (mem_mentions_symbol name)
    rw [callee?, callee?, hb name hname, hd.resolve? name hname]
  | _ => rfl

/-- **Step law**: a form is evaluated in lockstep by dialects that agree on the names that it
mentions. -/
theorem lockstep_evalAt (hd : d.AgreeOn names d') (depth : Nat) {form : Form}
    (hnames : form.mentions ⊆ names) :
    Lockstep names (d.evalAt depth form) (d'.evalAt depth form) := by
  have hcongruence := isCongruence_lockstep names
  induction form using nestingInduction generalizing depth with
  | number x => exact hcongruence.pure _
  | string stored => exact hcongruence.pure _
  | symbol name =>
    have hname := hnames (mem_mentions_symbol name)
    exact hcongruence.lookup fun b b' hb => hb name hname
  | assign name => exact hcongruence.throw _
  | list elements ih =>
    have helements : ∀ form ∈ elements, form.mentions ⊆ names :=
      fun form hform => (mentions_subset_of_mem hform).trans hnames
    rw [evalAt, evalAt, hd.limit]
    split
    · exact hcongruence.throw _
    · refine hcongruence.evalList (fun head hhead b b' hb => ?_) lockstep_assign fun form hform =>
        ih form hform (depth + 1) (helements form hform)
      exact hd.callee?_eq hb (helements head hhead)

end Dialect

/-! ### Environments -/

namespace Environment

variable (env other : Environment) (form : Form)

/-- Two environments that agree are left with the same entries by an evaluation, and the result is
the same. -/
theorem exists_eval_eq_overwrite (hdialect : env.toDialect.AgreeOn form.mentions other.toDialect)
    (hbindings : env.bindings.AgreeOn form.mentions other.bindings) :
    ∃ result entries,
      env.eval form = (result, { env with bindings := env.bindings.overwrite entries }) ∧
      other.eval form = (result, { other with bindings := other.bindings.overwrite entries }) := by
  obtain ⟨entries, ⟨v, hv, hv'⟩ | ⟨e, he, he'⟩⟩ :=
    Dialect.lockstep_evalAt hdialect 0 subset_rfl env.bindings other.bindings hbindings
  · exact ⟨.ok v, entries, by rw [eval, Dialect.eval, hv], by rw [eval, Dialect.eval, hv']⟩
  · exact ⟨.error e, entries, by rw [eval, Dialect.eval, he], by rw [eval, Dialect.eval, he']⟩

/-- **An evaluation depends on the mentioned names only.** Let two environments have the same limit,
and let each name that a form mentions be bound to the same in both, and stand for the same operation
of the host, or for none in both. Then the form evaluates to the same value, or fails with the same
error. Afterwards the mentioned names are again bound to the same, and every name is either as it was
in both environments, or bound to the same value in both. -/
theorem eval_of_agreeOn (hdialect : env.toDialect.AgreeOn form.mentions other.toDialect)
    (hbindings : env.bindings.AgreeOn form.mentions other.bindings) :
    (other.eval form).1 = (env.eval form).1 ∧
      (env.eval form).2.bindings.AgreeOn form.mentions (other.eval form).2.bindings ∧
      ∀ name,
        ((env.eval form).2.get? name = env.get? name ∧
          (other.eval form).2.get? name = other.get? name) ∨
        ∃ v, (env.eval form).2.get? name = some (.value v) ∧
          (other.eval form).2.get? name = some (.value v) := by
  obtain ⟨result, entries, heval, hother⟩ :=
    exists_eval_eq_overwrite env other form hdialect hbindings
  rw [heval, hother]
  exact ⟨rfl, hbindings.overwrite entries,
    Bindings.getElem?_overwrite_both env.bindings other.bindings entries⟩

/-- A name that is bound to a number, while the host has an operation under it, is the argument of an
assignment and the head of a call; then an unbound name follows. What else is bound or offered by the
host makes no difference: the evaluation fails at that name, and the name that is assigned to before
stays bound to the same value. -/
theorem eval_of_agreeOn_unbound :
    let collect : Operation := fun args => .ok (.list args)
    let host := ({} : HostTable).insert "x" collect
    let env := (empty.define "x" (.ofInt 7)).setResolver host.resolve?
    let other := ((standard.define "a" (.ofInt 3)).define "x" (.ofInt 7)).setResolver
      (host.insert "y" collect).resolve?
    let form : Form := .list [.list [.assign "a", .symbol "x"], .list [.symbol "x", .symbol "x"],
      .symbol "z"]
    (env.eval form).1 = .error (.unboundSymbol "z") ∧
      (other.eval form).1 = .error (.unboundSymbol "z") ∧
      ∃ v, (env.eval form).2.get? "a" = some (.value v) ∧
        (other.eval form).2.get? "a" = some (.value v) := by
  intro collect host env other form
  have hmentions : ∀ name ∈ form.mentions, name = "x" ∨ name = "z" := by
    simp [form, Form.mentions, Form.leaves]
  have hdialect : env.toDialect.AgreeOn form.mentions other.toDialect := by
    refine ⟨rfl, fun name hname => ?_⟩
    rcases hmentions name hname with rfl | rfl
    · rfl
    · rfl
  have hbindings : env.bindings.AgreeOn form.mentions other.bindings := by
    intro name hname
    rcases hmentions name hname with rfl | rfl
    · rfl
    · rfl
  obtain ⟨hresult, -, hnames⟩ := eval_of_agreeOn env other form hdialect hbindings
  have heval : (env.eval form).1 = .error (.unboundSymbol "z") := by decide +kernel
  refine ⟨heval, hresult.trans heval, ?_⟩
  rcases hnames "a" with ⟨hsame, -⟩ | hvalue
  · have hbound : (env.eval form).2.get? "a" ≠ none := by decide +kernel
    exact absurd hsame hbound
  · exact hvalue

end Environment

end ListLanguage
