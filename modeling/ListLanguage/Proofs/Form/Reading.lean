import ListLanguage.Proofs.Form.Outline

/-!
# What is read from tokens

A reader stands for the outline that it has read: the outlines of its complete forms, and for
each open list an opening mark and the outlines of the list's elements. Reading a token adds the
token's mark to it, so when no list is open the forms that were read have the outline of the
tokens (`outlineAll_of_ofTokens_eq_ok`).

In the other direction, tokens with the outline of a form are read as that form, where there is
room for its depth (`read_of_map_mark_eq_outline`).

Reading fails only at a bracket. The tokens that are read are therefore the **balanced** ones,
in which the surplus of opening brackets stays between zero and the limit and returns to zero.
-/

namespace ListLanguage

open Form Mark

/-- Tokens are **balanced** within a limit: each closing bracket closes a list that was opened
before, every list that is opened is closed, and nowhere are more lists open than the limit
allows. -/
structure Balanced (limit : Nat) (tokens : List Token) : Prop where
  surplus_nonneg : ∀ before, before <+: tokens → 0 ≤ Token.surplus before
  surplus_le : ∀ before, before <+: tokens → Token.surplus before ≤ limit
  surplus_eq_zero : Token.surplus tokens = 0

/-- Whether tokens are balanced is told by the height along their marks. -/
theorem balanced_iff_height {limit : Nat} {tokens : List Token} :
    Balanced limit tokens ↔
      (∀ before, before <+: tokens.map Token.mark → 0 ≤ height before ∧ height before ≤ limit) ∧
        height (tokens.map Token.mark) = 0 := by
  constructor
  · intro h
    refine ⟨fun before hbefore => ?_, ?_⟩
    · obtain ⟨front, hfront, rfl⟩ := List.prefix_map_iff.mp hbefore
      rw [← Token.surplus_eq_height]
      exact ⟨h.surplus_nonneg front hfront, h.surplus_le front hfront⟩
    · rw [← Token.surplus_eq_height, h.surplus_eq_zero]
  · rintro ⟨hheight, hzero⟩
    have hsurplus : ∀ before, before <+: tokens →
        0 ≤ Token.surplus before ∧ Token.surplus before ≤ limit := by
      intro before hbefore
      rw [Token.surplus_eq_height]
      exact hheight _ (hbefore.map Token.mark)
    refine ⟨fun before h => (hsurplus before h).1, fun before h => (hsurplus before h).2, ?_⟩
    rw [Token.surplus_eq_height, hzero]

/-- Forms along whose outline the height keeps a limit keep that limit. -/
theorem Form.depth_le_of_height_le {limit : Nat} {forms : List Form}
    (h : ∀ before, before <+: outlineAll forms → height before ≤ limit) :
    ∀ form ∈ forms, form.depth ≤ limit := by
  intro form hform
  obtain ⟨fs, gs, rfl⟩ := List.append_of_mem hform
  obtain ⟨before, hbefore, hheight⟩ := exists_prefix_height_eq_depth form
  have hprefix : outlineAll fs ++ before <+: outlineAll (fs ++ form :: gs) := by
    rw [outlineAll_append, outlineAll_cons, List.prefix_append_right_inj]
    exact hbefore.trans (List.prefix_append _ _)
  have hle := h _ hprefix
  rw [height_append, height_outlineAll, Int.zero_add, hheight] at hle
  exact Int.ofNat_le.mp hle

namespace Reader

/-! ### Reading one token -/

variable {limit : Nat} {r s : Reader} {token : Token} {tokens : List Token}

theorem step_of_mark_opening (h : token.mark = .opening) :
    r.step limit token = if limit ≤ r.depth then .error (.tooDeeplyNested token.offset limit)
      else .ok { r with enclosing := [] :: r.enclosing } := by
  simp only [step, Token.kind_of_mark_eq_opening h]

theorem step_of_mark_closing_nil (h : token.mark = .closing) (hopen : r.enclosing = []) :
    r.step limit token = .error (.unbalancedClose token.offset token.text) := by
  simp only [step, Token.kind_of_mark_eq_closing h, hopen]

theorem step_of_mark_closing_cons {elements : List Form} {outer : List (List Form)}
    (h : token.mark = .closing) (hopen : r.enclosing = elements :: outer) :
    r.step limit token = .ok ({ r with enclosing := outer }.add (.list elements.reverse)) := by
  simp only [step, Token.kind_of_mark_eq_closing h, hopen]

theorem step_of_mark_leaf {form : Form} (h : token.mark = .leaf form) :
    r.step limit token = .ok (r.add form) := by
  rw [Token.mark] at h
  rw [step]
  cases hkind : token.kind <;> simp_all

/-- What one step can do: it opens a list where there is room, completes the innermost open list,
or adds a leaf. -/
theorem step_eq_ok (h : r.step limit token = .ok s) :
    (token.mark = .opening ∧ r.depth < limit ∧ s = { r with enclosing := [] :: r.enclosing }) ∨
      (token.mark = .closing ∧ ∃ elements outer, r.enclosing = elements :: outer ∧
        s = ({ r with enclosing := outer } : Reader).add (.list elements.reverse)) ∨
      ∃ form, token.mark = .leaf form ∧ s = r.add form := by
  cases hmark : token.mark with
  | opening =>
    rw [step_of_mark_opening hmark] at h
    split at h
    · cases h
    · rename_i hroom
      exact .inl ⟨rfl, Nat.lt_of_not_le hroom, (Except.ok.inj h).symm⟩
  | closing =>
    refine .inr (.inl ⟨rfl, ?_⟩)
    cases hopen : r.enclosing with
    | nil =>
      rw [step_of_mark_closing_nil hmark hopen] at h
      cases h
    | cons elements outer =>
      rw [step_of_mark_closing_cons hmark hopen] at h
      exact ⟨elements, outer, rfl, (Except.ok.inj h).symm⟩
  | leaf form =>
    rw [step_of_mark_leaf hmark] at h
    exact .inr (.inr ⟨form, rfl, (Except.ok.inj h).symm⟩)

/-- Reading a row of tokens begins with a step. -/
theorem read_cons_eq_ok (h : r.read limit (token :: tokens) = .ok s) :
    ∃ middle, r.step limit token = .ok middle ∧ middle.read limit tokens = .ok s := by
  rw [read_cons] at h
  cases hstep : r.step limit token with
  | error e =>
    rw [hstep] at h
    cases h
  | ok middle =>
    rw [hstep] at h
    exact ⟨middle, rfl, h⟩

/-! ### The outline that was read -/

/-- The marks of the open lists and of what they hold, from the innermost list outwards. -/
def openOutline : List (List Form) → List Mark
  | [] => []
  | elements :: outer => openOutline outer ++ .opening :: outlineAll elements.reverse

/-- The marks that a reader has read. -/
def outline (r : Reader) : List Mark :=
  outlineAll r.forms.reverse ++ openOutline r.enclosing

theorem outline_add (r : Reader) (form : Form) :
    (r.add form).outline = r.outline ++ form.outline := by
  unfold add outline
  cases hopen : r.enclosing with
  | nil => simp [openOutline]
  | cons elements outer => simp [openOutline]

/-- **Step**: reading a token adds its mark. -/
theorem outline_step (h : r.step limit token = .ok s) :
    s.outline = r.outline ++ [token.mark] := by
  obtain ⟨hmark, -, rfl⟩ | ⟨hmark, elements, outer, hopen, rfl⟩ | ⟨form, hmark, rfl⟩ := step_eq_ok h
  · rw [hmark]
    simp [outline, openOutline]
  · rw [hmark, outline_add, outline_list]
    simp [outline, hopen, openOutline]
  · rw [outline_add, hmark, outline_of_mark_eq_leaf hmark]

/-- **Run**: reading some tokens adds their marks in order. -/
theorem outline_read (h : r.read limit tokens = .ok s) :
    s.outline = r.outline ++ tokens.map Token.mark := by
  induction tokens generalizing r with
  | nil =>
    cases h
    simp
  | cons token tokens ih =>
    obtain ⟨middle, hstep, hread⟩ := read_cons_eq_ok h
    rw [ih hread, outline_step hstep, List.map_cons, List.append_assoc, List.singleton_append]

/-! ### Forms are read from their outlines -/

/-- Adds some complete forms, one after another. -/
def addAll (r : Reader) (forms : List Form) : Reader :=
  forms.foldl add r

@[simp]
theorem addAll_nil (r : Reader) : r.addAll [] = r := rfl

@[simp]
theorem addAll_cons (r : Reader) (form : Form) (forms : List Form) :
    r.addAll (form :: forms) = (r.add form).addAll forms := rfl

theorem addAll_of_enclosing_eq_nil (done forms : List Form) :
    Reader.addAll ⟨done, []⟩ forms = ⟨forms.reverse ++ done, []⟩ := by
  induction forms generalizing done with
  | nil => rfl
  | cons form forms ih => simp [add, ih]

theorem addAll_of_enclosing_eq_cons (done elements : List Form) (outer : List (List Form))
    (forms : List Form) :
    Reader.addAll ⟨done, elements :: outer⟩ forms = ⟨done, (forms.reverse ++ elements) :: outer⟩ := by
  induction forms generalizing elements with
  | nil => rfl
  | cons form forms ih => simp [add, ih]

/-- A row of forms is read from its outline, if each of the forms is. -/
private theorem read_outlineAll_of_forall {forms : List Form}
    (h : ∀ form ∈ forms, ∀ (r : Reader) (tokens : List Token),
      tokens.map Token.mark = form.outline → r.depth + form.depth ≤ limit →
        r.read limit tokens = .ok (r.add form))
    (htokens : tokens.map Token.mark = outlineAll forms)
    (hlimit : ∀ form ∈ forms, r.depth + form.depth ≤ limit) :
    r.read limit tokens = .ok (r.addAll forms) := by
  induction forms generalizing r tokens with
  | nil =>
    rw [List.map_eq_nil_iff.mp htokens]
    rfl
  | cons form forms ih =>
    rw [outlineAll_cons, List.map_eq_append_iff] at htokens
    obtain ⟨front, back, rfl, hfront, hback⟩ := htokens
    rw [read_append, h form List.mem_cons_self r front hfront (hlimit form List.mem_cons_self)]
    refine ih (fun f hf => h f (List.mem_cons_of_mem form hf)) hback fun f hf => ?_
    rw [depth_add]
    exact hlimit f (List.mem_cons_of_mem form hf)

/-- Tokens with the outline of a form are read as that form, where there is room for its
depth. -/
theorem read_of_map_mark_eq_outline {form : Form} (htokens : tokens.map Token.mark = form.outline)
    (hlimit : r.depth + form.depth ≤ limit) : r.read limit tokens = .ok (r.add form) := by
  induction form using nestingInduction generalizing r tokens with
  | list elements ih =>
    rw [outline_list, List.map_eq_cons_iff] at htokens
    obtain ⟨first, tokens, rfl, hfirst, htokens⟩ := htokens
    obtain ⟨inner, lasts, rfl, hinner, hlasts⟩ := List.map_eq_append_iff.mp htokens
    obtain ⟨last, rfl, hlast⟩ := List.map_eq_singleton_iff.mp hlasts
    rw [depth_list] at hlimit
    have hroom : ∀ form ∈ elements, (⟨r.forms, [] :: r.enclosing⟩ : Reader).depth + form.depth ≤
        limit := by
      intro form hform
      have := depthAll_le_iff.mp (Nat.le_refl _) form hform
      simp only [depth, List.length_cons] at hlimit ⊢
      omega
    -- the list is opened, its elements join it in order, and then it joins the list around it
    rw [read_cons, step_of_mark_opening hfirst, if_neg (by omega)]
    simp only [Except.bind]
    rw [read_append, read_outlineAll_of_forall (fun f hf r ts => ih f hf) hinner hroom,
      addAll_of_enclosing_eq_cons]
    simp only [Except.bind]
    rw [read_cons, step_of_mark_closing_cons hlast rfl]
    simp [Except.bind]
  | _ =>
    rw [outline_of_depth_eq_zero (by simp), List.map_eq_singleton_iff] at htokens
    obtain ⟨token, rfl, htoken⟩ := htokens
    rw [read_cons, step_of_mark_leaf htoken]
    rfl

theorem read_of_map_mark_eq_outlineAll {forms : List Form}
    (htokens : tokens.map Token.mark = outlineAll forms)
    (hlimit : ∀ form ∈ forms, r.depth + form.depth ≤ limit) :
    r.read limit tokens = .ok (r.addAll forms) :=
  read_outlineAll_of_forall (fun _ _ _ _ => read_of_map_mark_eq_outline) htokens hlimit

/-! ### Balanced marks are read -/

/-- **Step**: a token is read if its mark keeps the height between zero and the limit. -/
theorem exists_step_eq_ok (hlow : 0 ≤ r.depth + token.mark.rise)
    (hhigh : r.depth + token.mark.rise ≤ limit) :
    ∃ s, r.step limit token = .ok s ∧ (s.depth : Int) = r.depth + token.mark.rise := by
  cases hmark : token.mark with
  | opening =>
    rw [hmark, rise_opening] at hhigh
    rw [step_of_mark_opening hmark, if_neg (by omega)]
    exact ⟨_, rfl, by simp [depth]⟩
  | closing =>
    rw [hmark, rise_closing] at hlow
    cases hopen : r.enclosing with
    | nil => simp [depth, hopen] at hlow
    | cons elements outer =>
      rw [step_of_mark_closing_cons hmark hopen]
      refine ⟨_, rfl, ?_⟩
      rw [depth_add]
      simp only [depth, hopen, List.length_cons, rise_closing]
      omega
  | leaf form =>
    rw [step_of_mark_leaf hmark]
    exact ⟨_, rfl, by simp⟩

/-- **Run**: tokens are read if their marks keep the height between zero and the limit. -/
theorem exists_read_eq_ok
    (h : ∀ before, before <+: tokens.map Token.mark →
      0 ≤ r.depth + height before ∧ r.depth + height before ≤ limit) :
    ∃ s, r.read limit tokens = .ok s ∧
      (s.depth : Int) = r.depth + height (tokens.map Token.mark) := by
  induction tokens generalizing r with
  | nil => exact ⟨r, rfl, by simp⟩
  | cons token tokens ih =>
    have hfirst := h [token.mark] ⟨tokens.map Token.mark, rfl⟩
    simp only [height_cons, height_nil, Int.add_zero] at hfirst
    obtain ⟨middle, hstep, hdepth⟩ := exists_step_eq_ok hfirst.1 hfirst.2
    obtain ⟨s, hread, hs⟩ := ih (r := middle) fun before hbefore => by
      have hcons := h (token.mark :: before) ((List.prefix_cons_inj _).mpr hbefore)
      rw [height_cons] at hcons
      rw [hdepth]
      omega
    refine ⟨s, ?_, ?_⟩
    · rw [read_cons, hstep]
      exact hread
    · rw [hs, hdepth, List.map_cons, height_cons, Int.add_assoc]

/-- **Step**: a token that is read moves the number of open lists by its mark, and keeps it
within the limit. -/
theorem depth_step (h : r.step limit token = .ok s) (hr : r.depth ≤ limit) :
    (s.depth : Int) = r.depth + token.mark.rise ∧ s.depth ≤ limit := by
  obtain ⟨hmark, hroom, rfl⟩ | ⟨hmark, elements, outer, hopen, rfl⟩ | ⟨form, hmark, rfl⟩ :=
    step_eq_ok h
  · rw [hmark, rise_opening]
    simp only [depth, List.length_cons] at *
    omega
  · rw [hmark, rise_closing, depth_add]
    simp only [depth, hopen, List.length_cons] at *
    omega
  · rw [hmark, rise_leaf, depth_add, Int.add_zero]
    exact ⟨rfl, hr⟩

/-- **Run**: while tokens are read, their marks keep the height between zero and the limit. -/
theorem height_of_read_eq_ok (h : r.read limit tokens = .ok s) (hr : r.depth ≤ limit)
    {before : List Mark} (hbefore : before <+: tokens.map Token.mark) :
    0 ≤ r.depth + height before ∧ r.depth + height before ≤ limit := by
  induction tokens generalizing r before with
  | nil =>
    rw [List.prefix_nil.mp hbefore, height_nil]
    omega
  | cons token tokens ih =>
    obtain ⟨middle, hstep, hread⟩ := read_cons_eq_ok h
    obtain ⟨hdepth, hmiddle⟩ := depth_step hstep hr
    rcases List.prefix_cons_iff.mp hbefore with rfl | ⟨rest, rfl, hrest⟩
    · rw [height_nil]
      omega
    · have hheight := ih hread hmiddle hrest
      rw [height_cons]
      omega

end Reader

/-! ### Gathering tokens into forms -/

namespace Form

open Reader

variable {tokens : List Token} {limit : Nat} {forms : List Form}

/-- The forms of some tokens are the complete ones of a reader that has read the tokens and has
no list open. -/
theorem ofTokens_eq_ok_iff_read :
    ofTokens tokens limit = .ok forms ↔ ({} : Reader).read limit tokens = .ok ⟨forms.reverse, []⟩ := by
  rw [ofTokens]
  cases hread : ({} : Reader).read limit tokens with
  | error e => simp [Bind.bind, Except.bind]
  | ok s =>
    obtain ⟨done, enclosing⟩ := s
    cases enclosing with
    | nil => simp [Bind.bind, Except.bind, finish, List.reverse_eq_iff]
    | cons elements outer => simp [Bind.bind, Except.bind, finish]

/-- The forms that are read have the outline of the tokens. -/
theorem outlineAll_of_ofTokens_eq_ok (h : ofTokens tokens limit = .ok forms) :
    outlineAll forms = tokens.map Token.mark := by
  have houtline := outline_read (ofTokens_eq_ok_iff_read.mp h)
  simpa [Reader.outline, openOutline] using houtline

/-- Tokens that are read are balanced within the limit. -/
theorem balanced_of_ofTokens_eq_ok (h : ofTokens tokens limit = .ok forms) :
    Balanced limit tokens := by
  refine balanced_iff_height.mpr ⟨fun before hbefore => ?_, ?_⟩
  · have hheight := height_of_read_eq_ok (ofTokens_eq_ok_iff_read.mp h) (Nat.zero_le limit) hbefore
    simpa [Reader.depth] using hheight
  · rw [← outlineAll_of_ofTokens_eq_ok h, height_outlineAll]

/-- Balanced tokens are read. -/
theorem exists_ofTokens_eq_ok (h : Balanced limit tokens) :
    ∃ forms, ofTokens tokens limit = .ok forms := by
  obtain ⟨hheight, hzero⟩ := balanced_iff_height.mp h
  obtain ⟨s, hread, hdepth⟩ := exists_read_eq_ok (r := {}) (by simpa [Reader.depth] using hheight)
  rw [hzero] at hdepth
  obtain ⟨done, enclosing⟩ := s
  have hopen : enclosing = [] := by simpa [Reader.depth] using hdepth
  refine ⟨done.reverse, ofTokens_eq_ok_iff_read.mpr ?_⟩
  rw [hread, hopen, List.reverse_reverse]

/-- Forms are read from tokens that have their outline, if they keep the limit. -/
theorem ofTokens_eq_ok_of_outlineAll (houtline : outlineAll forms = tokens.map Token.mark)
    (hlimit : ∀ form ∈ forms, form.depth ≤ limit) : ofTokens tokens limit = .ok forms := by
  rw [ofTokens_eq_ok_iff_read, read_of_map_mark_eq_outlineAll houtline.symm]
  · rw [addAll_of_enclosing_eq_nil, List.append_nil]
  · simpa [Reader.depth] using hlimit

/-- Forms that are read keep the limit. -/
theorem depth_le_of_ofTokens_eq_ok (h : ofTokens tokens limit = .ok forms) :
    ∀ form ∈ forms, form.depth ≤ limit := by
  have hheight := (balanced_iff_height.mp (balanced_of_ofTokens_eq_ok h)).1
  rw [← outlineAll_of_ofTokens_eq_ok h] at hheight
  exact depth_le_of_height_le fun before hbefore => (hheight before hbefore).2

end Form

end ListLanguage
