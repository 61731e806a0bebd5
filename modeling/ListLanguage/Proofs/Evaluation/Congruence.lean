import Mathlib.Data.List.Forall2
import ListLanguage.Proofs.Evaluation.Assignments

/-!
# Two evaluations side by side

The evaluator makes its computations in a few ways: it returns and throws, puts one computation
behind another, and reads the bindings to see what a name is bound to or what a head calls. A
relation between computations is a **congruence** if it survives all of these
(`Evaluation.IsCongruence`). So what two evaluations have in common is shown once for each of these
ways, and then it passes from the elements of a list to the list (`IsCongruence.evalList`).

The bindings that the two computations read need not be the same; a congruence comes with a relation
between them.
-/

namespace ListLanguage

namespace Evaluation

/-- A relation between computations that survives the ways in which computations are made. The
bindings that two related computations read are related by `I`. -/
structure IsCongruence (I : Bindings → Bindings → Prop)
    (R : ∀ {α : Type}, Evaluation α → Evaluation α → Prop) : Prop where
  pure : ∀ {α : Type} (a : α), R (pure a) (pure a)
  throw : ∀ {α : Type} (e : EvalError), R (throw e : Evaluation α) (throw e)
  bind : ∀ {α β : Type} {x x' : Evaluation α} {f f' : α → Evaluation β},
    R x x' → (∀ a, R (f a) (f' a)) → R (x >>= f) (x' >>= f')
  get_bind : ∀ {α : Type} {f f' : Bindings → Evaluation α},
    (∀ b b', I b b' → R (f b) (f' b')) → R (get >>= f) (get >>= f')

namespace IsCongruence

variable {α β : Type} {I : Bindings → Bindings → Prop}
  {R : ∀ {α : Type}, Evaluation α → Evaluation α → Prop} (hR : IsCongruence I R)
include hR

theorem map {x x' : Evaluation α} (hx : R x x') (f : α → β) : R (f <$> x) (f <$> x') :=
  hR.bind hx fun a => hR.pure (f a)

/-- A row of computations that pass a result on is related to another one, step by step. -/
theorem foldlM {f f' : α → β → Evaluation α} (h : ∀ a item, R (f a item) (f' a item))
    (items : List β) (a : α) : R (items.foldlM f a) (items.foldlM f' a) := by
  induction items generalizing a with
  | nil => exact hR.pure a
  | cons item items ih =>
    rw [List.foldlM_cons, List.foldlM_cons]
    exact hR.bind (h a item) ih

theorem lookup {name : String} (hname : ∀ b b', I b b' → b'[name]? = b[name]?) :
    R (lookup name) (lookup name) := by
  refine hR.get_bind fun b b' hb => ?_
  rw [hname b b' hb]
  split
  · exact hR.pure _
  · exact hR.pure _
  · exact hR.throw _

theorem apply (operation : Operation) (args : List Value) :
    R (apply operation args) (apply operation args) := by
  rw [Evaluation.apply]
  split
  · exact hR.pure _
  · exact hR.throw _

/-! ### The evaluator -/

open Dialect

variable {d d' : Dialect} {depth : Nat}

theorem evalEach {forms forms' : List Form}
    (h : List.Forall₂ (fun form form' => R (d.evalAt depth form) (d'.evalAt depth form'))
      forms forms') :
    R (d.evalEach depth forms) (d'.evalEach depth forms') := by
  induction h with
  | nil => exact hR.pure []
  | cons hform _ ih =>
    rw [Dialect.evalEach, Dialect.evalEach]
    exact hR.bind hform fun v => hR.map ih fun vs => v :: vs

/-- Lists whose heads call the same are evaluated to related computations if their elements are. -/
theorem evalList_cons {head head' : Form} {args args' : List Form}
    (hcallee : ∀ b b', I b b' → d'.callee? b' head' = d.callee? b head)
    (hassign : ∀ name, head = .assign name → ∀ v, R (assign name v) (assign name v))
    (hhead : R (d.evalAt depth head) (d'.evalAt depth head'))
    (hargs : List.Forall₂ (fun form form' => R (d.evalAt depth form) (d'.evalAt depth form'))
      args args') :
    R (d.evalList depth (head :: args)) (d'.evalList depth (head' :: args')) := by
  have heach := hR.evalEach hargs
  rw [Dialect.evalList, Dialect.evalList]
  refine hR.get_bind fun b b' hb => ?_
  rw [hcallee b b' hb]
  split
  · -- an assignment counts its arguments before it evaluates the one that it takes
    rename_i name hname
    rcases hargs with _ | ⟨hform, _ | ⟨_, hrest⟩⟩
    · exact hR.throw _
    · exact hR.bind hform (hassign name (callee?_eq_assign d hname))
    · simp only [List.length_cons, hrest.length_eq]
      exact hR.throw _
  · exact hR.bind heach fun vs => hR.apply _ vs
  · exact hR.bind heach fun vs => hR.apply _ vs
  · exact hR.bind hhead fun v => hR.map heach fun vs => Value.list (v :: vs)

/-- A list is evaluated to related computations in two dialects if its elements are, and if its head
calls the same. -/
theorem evalList {elements : List Form}
    (hcallee : ∀ head ∈ elements, ∀ b b', I b b' → d'.callee? b' head = d.callee? b head)
    (hassign : ∀ name v, R (assign name v) (assign name v))
    (h : ∀ form ∈ elements, R (d.evalAt depth form) (d'.evalAt depth form)) :
    R (d.evalList depth elements) (d'.evalList depth elements) := by
  cases elements with
  | nil => exact hR.pure _
  | cons head args =>
    obtain ⟨hhead, hargs⟩ := List.forall_mem_cons.mp h
    exact hR.evalList_cons (hcallee head List.mem_cons_self) (fun name _ => hassign name) hhead
      (List.forall₂_same.mpr hargs)

end IsCongruence

end Evaluation

end ListLanguage
