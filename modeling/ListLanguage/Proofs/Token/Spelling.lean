import ListLanguage.Proofs.Form.Outline
import ListLanguage.Proofs.Token.Cut
import ListLanguage.Text.Bracketed

/-!
# Texts that spell marks

A text **spells** a row of marks if it can stand behind any cut text whose last atom is complete,
and is cut there into tokens with these marks. What stands before it does not matter, so texts can
be put together: with a blank between them they spell their marks in sequence, and in brackets
they spell a list.

A source that spells some marks is cut into tokens with these marks (`Spells.tokenize_eq_ok`).
-/

namespace ListLanguage

open Text

/-- A text that adds tokens with the given marks to any cut that is not tight. -/
def Spells (written : List Char) (marks : List Mark) : Prop :=
  ∀ text tokens, Cut text tokens false →
    ∃ added tight, Cut (text ++ written) (tokens ++ added) tight ∧ added.map Token.mark = marks

namespace Spells

variable {as bs : List Char} {ms ns : List Mark}

theorem nil : Spells [] [] := by
  intro text tokens hcut
  refine ⟨[], false, ?_, rfl⟩
  rwa [List.append_nil, List.append_nil]

/-- An atom spells the leaf that it stands for, wherever it stands. -/
theorem atom {run string : List Char} {form : Form} (hatom : IsAtom run string)
    (hform : ∀ offset, (Token.atom (run ++ string) offset).mark = .leaf form) :
    Spells (run ++ string) [.leaf form] := by
  intro text tokens hcut
  refine ⟨_, _, hcut.atom hatom, ?_⟩
  rw [List.map_singleton, hform]

/-- A blank completes what stands before it, so it keeps two texts apart. -/
theorem append_blank {c : Char} (has : Spells as ms) (hc : isBlank c) (hbs : Spells bs ns) :
    Spells (as ++ c :: bs) (ms ++ ns) := by
  intro text tokens hcut
  obtain ⟨first, tight, hfirst, hms⟩ := has text tokens hcut
  obtain ⟨second, tight', hsecond, hns⟩ := hbs _ _ (hfirst.blank hc)
  refine ⟨first ++ second, tight', ?_, ?_⟩
  · simpa using hsecond
  · rw [List.map_append, hms, hns]

/-- A text in brackets spells a list. -/
theorem brackets (has : Spells as ms) :
    Spells ('(' :: (as ++ [')'])) (.opening :: (ms ++ [.closing])) := by
  intro text tokens hcut
  obtain ⟨inner, tight, hinner, hms⟩ := has _ _ hcut.opening
  refine ⟨⟨.opening, "(", byteLength text⟩ ::
    (inner ++ [⟨.closing, ")", byteLength (text ++ ['('] ++ as)⟩]), false, ?_, ?_⟩
  · simpa using hinner.closing
  · rw [List.map_cons, List.map_append, hms]
    rfl

/-- Texts joined by single spaces spell their marks in sequence. -/
theorem intercalate {α : Type} {items : List α} {written : α → String} {marks : α → List Mark}
    (h : ∀ item ∈ items, Spells (written item).toList (marks item)) :
    Spells (" ".intercalate (items.map written)).toList (items.flatMap marks) := by
  induction items with
  | nil => exact nil
  | cons item items ih =>
    have hitem := h item List.mem_cons_self
    have hitems := ih fun other hother => h other (List.mem_cons_of_mem item hother)
    by_cases hnil : items = []
    · subst hnil
      simpa using hitem
    · have hne : items.map written ≠ [] := by simpa using hnil
      have htext : (" ".intercalate ((item :: items).map written)).toList =
          (written item).toList ++ ' ' :: (" ".intercalate (items.map written)).toList := by
        rw [List.map_cons, String.intercalate_cons_of_ne_nil hne]
        simp
      rw [htext, List.flatMap_cons]
      exact hitem.append_blank (by decide) hitems

/-- A written list spells the marks of a list. -/
theorem bracketed {α : Type} {items : List α} {written : α → String} {marks : α → List Mark}
    (h : ∀ item ∈ items, Spells (written item).toList (marks item)) :
    Spells (Text.bracketed (items.map written)).toList
      (.opening :: (items.flatMap marks ++ [.closing])) := by
  have htext : (Text.bracketed (items.map written)).toList =
      '(' :: ((" ".intercalate (items.map written)).toList ++ [')']) := by
    simp [Text.bracketed]
  rw [htext]
  exact (intercalate h).brackets

/-- A source that spells some marks is cut into tokens with these marks. -/
theorem tokenize_eq_ok {source : String} (h : Spells source.toList ms) :
    ∃ tokens, tokenize source = .ok tokens ∧ tokens.map Token.mark = ms := by
  obtain ⟨tokens, tight, hcut, hms⟩ := h [] [] .nil
  rw [List.nil_append, List.nil_append] at hcut
  exact ⟨tokens, tokenize_eq_ok_iff_cut.mpr ⟨tight, hcut⟩, hms⟩

end Spells

end ListLanguage
