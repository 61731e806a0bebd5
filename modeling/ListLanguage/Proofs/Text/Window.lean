import ListLanguage.Error
import ListLanguage.Proofs.Text.Bytes

/-!
# What a window shows

The start of a window is found by cutting the text ten bytes before the place of an error. The cut is
at the greatest boundary that is not above that byte (`byteLength_le_splitBytes`), and since a
character takes at most four bytes, it is fewer than four bytes before it
(`lt_byteLength_splitBytes_add_four`).

The place itself is found by a cut as well: the character behind a cut is the one that holds the byte
for which the cut is made (`exists_splitBytes_eq_cons`). So the place is at most thirteen bytes behind
the start, which are at most thirteen characters, and a window is forty characters long
(`LexError.inSource_exact`).
-/

namespace ListLanguage

namespace Text

variable {n : Nat} {cs : List Char}

/-! ### Cuts -/

/-- A cut is made at the greatest boundary that is not above its byte. -/
theorem byteLength_le_splitBytes {before after : List Char} (h : before ++ after = cs)
    (hle : byteLength before ≤ n) : byteLength before ≤ byteLength (splitBytes n cs).1 := by
  induction before generalizing n cs with
  | nil => exact Nat.zero_le _
  | cons c before ih =>
    subst h
    rw [byteLength_cons] at hle
    have hc : c.utf8Size ≤ n := by omega
    have hrest := ih rfl (Nat.le_sub_of_add_le' hle)
    simpa [splitBytes, hc] using hrest

/-- Behind a cut inside a text stands the character that holds the byte of the cut. -/
theorem exists_splitBytes_eq_cons (h : n < byteLength cs) :
    ∃ c rest, (splitBytes n cs).2 = c :: rest ∧ n < byteLength (splitBytes n cs).1 + c.utf8Size := by
  have hsplit := splitBytes_append n cs
  have hle := byteLength_splitBytes_le n cs
  cases hafter : (splitBytes n cs).2 with
  | nil =>
    rw [hafter, List.append_nil] at hsplit
    rw [hsplit] at hle
    omega
  | cons c rest =>
    refine ⟨c, rest, rfl, ?_⟩
    by_contra hfits
    -- with this character the cut would be at a greater boundary
    have hnext : ((splitBytes n cs).1 ++ [c]) ++ rest = cs := by
      rw [List.append_assoc, List.singleton_append, ← hafter, hsplit]
    have hgreater : byteLength ((splitBytes n cs).1 ++ [c]) ≤ byteLength (splitBytes n cs).1 :=
      byteLength_le_splitBytes hnext (by simp; omega)
    have hpos := c.utf8Size_pos
    simp only [byteLength_append, byteLength_cons, byteLength_nil] at hgreater
    omega

/-- A cut is fewer than four bytes before its byte. -/
theorem lt_byteLength_splitBytes_add_four (h : n ≤ byteLength cs) :
    n < byteLength (splitBytes n cs).1 + 4 := by
  rcases Nat.eq_or_lt_of_le h with heq | hlt
  · have hall := byteLength_le_splitBytes (List.append_nil cs) (Nat.le_of_eq heq.symm)
    omega
  · obtain ⟨c, rest, -, hc⟩ := exists_splitBytes_eq_cons hlt
    have hfour := c.utf8Size_le_four
    omega

/-- A cut behind the end of a text is made at the end. -/
theorem byteLength_splitBytes_of_le (h : byteLength cs ≤ n) :
    byteLength (splitBytes n cs).1 = byteLength cs := by
  have hall := byteLength_le_splitBytes (List.append_nil cs) h
  have hparts := congrArg byteLength (splitBytes_append n cs)
  rw [byteLength_append] at hparts
  omega

/-! ### Windows -/

/-- What is kept on one line holds no line feed and no carriage return. -/
theorem ne_of_mem_oneLine {c : Char} (h : c ∈ oneLine cs) : c ≠ '\n' ∧ c ≠ '\r' := by
  obtain ⟨d, -, hd⟩ := List.mem_flatMap.mp h
  split at hd
  · have hc : c = '\\' ∨ c = 'n' := by simpa using hd
    rcases hc with rfl | rfl <;> decide
  · split at hd
    · cases hd
    · obtain rfl := List.mem_singleton.mp hd
      exact ⟨‹_›, ‹_›⟩

/-- Marks stand at the ends of a window where the text goes on. -/
theorem window_eq (text : String) (offset : Nat) :
    let (before, after) := splitBytes (offset - windowLead) text.toList
    window text offset =
      (if 0 < byteLength before then ellipsis else "") ++
        String.ofList (oneLine (after.take windowLength)) ++
        if byteLength before + byteLength (after.take windowLength) < text.utf8ByteSize then ellipsis
        else "" := by
  generalize hcut : splitBytes (offset - windowLead) text.toList = cut
  obtain ⟨before, after⟩ := cut
  have hsplit : before ++ after = text.toList := by
    rw [← splitBytes_append (offset - windowLead) text.toList, hcut]
  have hbytes : text.utf8ByteSize = byteLength before + byteLength (after.take windowLength) +
      byteLength (after.drop windowLength) := by
    have hafter : byteLength after =
        byteLength (after.take windowLength) + byteLength (after.drop windowLength) := by
      rw [← byteLength_append, List.take_append_drop]
    rw [← byteLength_toList, ← hsplit, byteLength_append, hafter, Nat.add_assoc]
  have hempty (cs : List Char) : (if cs.isEmpty then "" else ellipsis) =
      if 0 < byteLength cs then ellipsis else "" := by
    cases cs with
    | nil => rfl
    | cons c cs => rw [if_pos (byteLength_pos (List.cons_ne_nil c cs)), List.isEmpty_cons, if_neg nofun]
  simp only [window, hcut, hempty, hbytes, Nat.lt_add_right_iff_pos]

/-- A window is on one line. -/
theorem ne_of_mem_window {text : String} {offset : Nat} {c : Char}
    (h : c ∈ (window text offset).toList) : c ≠ '\n' ∧ c ≠ '\r' := by
  have hmark : ∀ b : Bool, c ∈ (if b then "" else ellipsis).toList → c ≠ '\n' ∧ c ≠ '\r' := by
    intro b hb
    cases b with
    | true => cases hb
    | false =>
      have hc : c = '[' ∨ c = '.' ∨ c = ']' := by simpa [ellipsis] using hb
      rcases hc with rfl | rfl | rfl <;> decide
  simp only [window, String.toList_append, String.toList_ofList, List.mem_append] at h
  rcases h with (hbefore | hshown) | hafter
  · exact hmark _ hbefore
  · exact ne_of_mem_oneLine hshown
  · exact hmark _ hafter

/-- The character that holds a byte of a text is in the window around it. -/
theorem exists_mem_window {offset : Nat} (h : offset < byteLength cs) :
    ∃ lead c tail, (splitBytes (offset - windowLead) cs).2.take windowLength = lead ++ c :: tail ∧
      byteLength (splitBytes (offset - windowLead) cs).1 + byteLength lead ≤ offset ∧
      offset < byteLength (splitBytes (offset - windowLead) cs).1 + byteLength lead + c.utf8Size := by
  obtain ⟨c, rest, hrest, hoffset⟩ := exists_splitBytes_eq_cons h
  have hle := byteLength_splitBytes_le offset cs
  have hstart := byteLength_splitBytes_le (offset - windowLead) cs
  have hnear : offset - windowLead < byteLength (splitBytes (offset - windowLead) cs).1 + 4 :=
    lt_byteLength_splitBytes_add_four (by omega)
  have hplace := splitBytes_append offset cs
  have hwindow := splitBytes_append (offset - windowLead) cs
  -- the window starts at a boundary that is not above the place, so the place is behind its start
  have hbehind : byteLength (splitBytes (offset - windowLead) cs).1 ≤
      byteLength (splitBytes offset cs).1 := byteLength_le_splitBytes hwindow (by omega)
  obtain ⟨lead, hlead, hafter⟩ :=
    exists_append_of_byteLength_le (hwindow.trans hplace.symm) hbehind
  rw [hlead, byteLength_append] at hle hoffset
  have hchars := length_le_byteLength lead
  have hten : windowLead = 10 := rfl
  have hforty : windowLength = 40 := rfl
  have hshort : lead.length < windowLength := by omega
  refine ⟨lead, c, rest.take (windowLength - lead.length - 1), ?_, hle, hoffset⟩
  rw [hafter, hrest, List.take_append, List.take_of_length_le (Nat.le_of_lt hshort),
    List.take_cons (Nat.sub_pos_of_lt hshort)]

end Text

open Text

/-- **A faithful window.** An error in a source keeps its kind, its text and its offset. Its context
shows the first forty characters, or all, of the source from a boundary `s` on, with a mark before them
if `s` is not the beginning and a mark behind them if the source goes on. Line feeds are shown as `\n`
and carriage returns not at all. The window starts at the beginning for an offset of at most ten, and at
the end for one that is more than ten bytes behind the end; otherwise `s` is the greatest boundary that
is at least ten bytes before the offset, and at most thirteen bytes before it. The character that holds
the byte at the offset is shown, if the offset is inside the source; and there is no line feed and no
carriage return in the context. -/
theorem LexError.inSource_exact (kind : LexError.Kind) (text source : String) (offset : Nat) :
    ∃ (s : Nat) (before shown after : String),
      source = before ++ shown ++ after ∧ before.utf8ByteSize = s ∧
      shown.length ≤ 40 ∧ (after ≠ "" → shown.length = 40) ∧
      inSource kind text source offset =
        ⟨kind, text, offset, some ((if 0 < s then "[...]" else "") ++
          String.ofList (shown.toList.flatMap fun c =>
            if c = '\n' then ['\\', 'n'] else if c = '\r' then [] else [c]) ++
          if s + shown.utf8ByteSize < source.utf8ByteSize then "[...]" else "")⟩ ∧
      (⟨s⟩ : String.Pos.Raw).IsValid source ∧
      (offset ≤ 10 → s = 0) ∧
      (source.utf8ByteSize < offset - 10 → s = source.utf8ByteSize) ∧
      (10 < offset → offset - 10 ≤ source.utf8ByteSize →
        offset - 13 ≤ s ∧ s ≤ offset - 10 ∧
          ∀ n, (⟨n⟩ : String.Pos.Raw).IsValid source → n ≤ offset - 10 → n ≤ s) ∧
      (offset < source.utf8ByteSize → ∃ lead c tail, shown = lead ++ String.singleton c ++ tail ∧
        s + lead.utf8ByteSize ≤ offset ∧ offset < s + lead.utf8ByteSize + c.utf8Size) ∧
      ∀ context, (inSource kind text source offset).context = some context →
        ∀ c ∈ context.toList, c ≠ '\n' ∧ c ≠ '\r' := by
  have hten : windowLead = 10 := rfl
  have hbytes : byteLength source.toList = source.utf8ByteSize := byteLength_toList source
  have hsplit := splitBytes_append (offset - windowLead) source.toList
  have hstart := byteLength_splitBytes_le (offset - windowLead) source.toList
  refine ⟨_, String.ofList (splitBytes (offset - windowLead) source.toList).1,
    String.ofList ((splitBytes (offset - windowLead) source.toList).2.take windowLength),
    String.ofList ((splitBytes (offset - windowLead) source.toList).2.drop windowLength),
    ?_, utf8ByteSize_ofList _, ?_, fun hafter => ?_, ?_, ?_, fun hfront => ?_, fun hend => ?_,
    fun hfront hinside => ⟨?_, hstart, fun n hn hle => ?_⟩, fun hinside => ?_, ?_⟩
  · rw [← String.toList_inj]
    simp [hsplit]
  · rw [String.length_ofList]
    exact List.length_take_le _ _
  · have hlong : windowLength < (splitBytes (offset - windowLead) source.toList).2.length := by
      simpa using hafter
    rw [String.length_ofList]
    exact List.length_take_of_le (Nat.le_of_lt hlong)
  · rw [String.toList_ofList, utf8ByteSize_ofList]
    exact congrArg (LexError.mk kind text offset ∘ some) (window_eq source offset)
  · exact isValid_iff.mpr ⟨_, _, hsplit.symm, rfl⟩
  · omega
  · rw [byteLength_splitBytes_of_le (by omega), hbytes]
  · have hnear : offset - windowLead <
        byteLength (splitBytes (offset - windowLead) source.toList).1 + 4 :=
      lt_byteLength_splitBytes_add_four (by omega)
    omega
  · obtain ⟨before, after, happend, rfl⟩ := isValid_iff.mp hn
    exact byteLength_le_splitBytes happend.symm hle
  · have hplace : offset < byteLength source.toList := by omega
    obtain ⟨lead, c, tail, hshown, hle, hlt⟩ := exists_mem_window hplace
    rw [← utf8ByteSize_ofList lead] at hle hlt
    refine ⟨String.ofList lead, c, String.ofList tail, ?_, hle, hlt⟩
    rw [hshown, ← String.toList_inj]
    simp
  · intro context hcontext c hc
    cases hcontext
    exact ne_of_mem_window hc

end ListLanguage
