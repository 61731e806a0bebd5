import ListLanguage.Proofs.Evaluation.Strings
import ListLanguage.Proofs.Run.Session
import ListLanguage.Proofs.Token.String

/-!
# The strings that a session shows

Where definitions are all that is expanded and the host offers nothing, every string in a value comes
from the sources: it **occurs** in one of them as a string, or it is joined from strings that do. A
string that occurs reads alone. One that is joined need not, since its marks are double quotes while
a content may have been written between single ones; it does if every double quote in the contents
stands behind a backslash (`Environment.session_strings`).
-/

namespace ListLanguage

open Text

/-- A text that one of the sources has as a string. -/
def OccursIn (sources : List String) (stored : String) : Prop :=
  ∃ source ∈ sources, ∃ tokens, tokenize source = .ok tokens ∧
    ∃ token ∈ tokens, token.kind = .quoted ∧ token.text = stored

theorem OccursIn.isString {sources : List String} {stored : String} (h : OccursIn sources stored) :
    IsString stored.toList := by
  obtain ⟨source, -, tokens, htokens, token, htoken, hkind, rfl⟩ := h
  exact isString_of_tokenize_eq_ok htokens htoken hkind

/-- A text that is joined from strings of the sources. -/
def JoinedFrom (sources : List String) (stored : String) : Prop :=
  ∃ pieces : List String, (∀ piece ∈ pieces, OccursIn sources piece) ∧
    stored = enquote (String.join (pieces.map unquote))

variable {sources : List String}

/-- The content of a string that occurs, or is joined, is made of contents of strings that occur. -/
theorem exists_pieces {stored : String} (h : OccursIn sources stored ∨ JoinedFrom sources stored) :
    ∃ pieces : List String, (∀ piece ∈ pieces, OccursIn sources piece) ∧
      unquote stored = String.join (pieces.map unquote) := by
  rcases h with h | ⟨pieces, hpieces, rfl⟩
  · exact ⟨[stored], by simpa using h, by simp⟩
  · exact ⟨pieces, hpieces, unquote_enquote _⟩

/-- **Step**: what is joined from strings that occur or are joined is joined from strings that
occur. -/
theorem joinedFrom_join {stored : List String}
    (h : ∀ s ∈ stored, OccursIn sources s ∨ JoinedFrom sources s) :
    JoinedFrom sources (enquote (String.join (stored.map unquote))) := by
  suffices hcontent : ∃ pieces : List String, (∀ piece ∈ pieces, OccursIn sources piece) ∧
      String.join (stored.map unquote) = String.join (pieces.map unquote) by
    obtain ⟨pieces, hpieces, heq⟩ := hcontent
    exact ⟨pieces, hpieces, congrArg enquote heq⟩
  induction stored with
  | nil => exact ⟨[], by simp, rfl⟩
  | cons s stored ih =>
    obtain ⟨hs, hstored⟩ := List.forall_mem_cons.mp h
    obtain ⟨first, hfirst, hfirstcontent⟩ := exists_pieces hs
    obtain ⟨rest, hrest, hrestcontent⟩ := ih hstored
    refine ⟨first ++ rest, List.forall_mem_append.mpr ⟨hfirst, hrest⟩, ?_⟩
    rw [List.map_cons, String.join_cons, hfirstcontent, hrestcontent, List.map_append,
      String.join_append]

namespace Environment

/-- **The strings of a session.** Let some sources be run in turn, strictly, in the standard
environment. A string in a value that is returned or bound occurs in one of the sources, and then it
reads alone; or it is joined from such strings, and then it reads alone exactly if every double quote
in their contents stands behind a backslash. -/
theorem session_strings (sources : List String) :
    ∀ outcome ∈ standard.session (sources.map fun source => { source }), ∀ v, Shows outcome v →
      ∀ stored, .string stored ∈ v.leaves →
        (OccursIn sources stored ∧ ReadsAlone stored) ∨
          ∃ pieces : List String, (∀ piece ∈ pieces, OccursIn sources piece) ∧
            stored = enquote (String.join (pieces.map unquote)) ∧
            (ReadsAlone stored ↔ ∀ piece ∈ pieces, IsGuarded '"' (unquote piece).toList) := by
  intro outcome houtcome v hv stored hstored
  have hclosed : standard.toDialect.IsClosed
      (Value.StringsAre fun s => OccursIn sources s ∨ JoinedFrom sources s) fun _ => True :=
    Dialect.isClosed_stringsAre (fun _ hall => .inr (joinedFrom_join hall)) (fun _ => trivial)
      (fun _ _ _ _ => trivial) fun _ _ hname => (nomatch hname)
  have hsources : ∀ submission ∈ sources.map fun source => ({ source } : Submission),
      ∀ tokens, tokenize submission.source submission.lenient = .ok tokens →
        ∀ token ∈ tokens, token.kind = .quoted →
          (Value.string token.text).StringsAre
            fun s => OccursIn sources s ∨ JoinedFrom sources s := by
    intro submission hsubmission tokens htokens token htoken hkind
    obtain ⟨source, hsource, rfl⟩ := List.mem_map.mp hsubmission
    exact Value.stringsAre_string_iff.mpr
      (.inl ⟨source, hsource, tokens, htokens, token, htoken, hkind, rfl⟩)
  have hdefinitions : standard.toDialect.ExpandsDefinitions := rfl
  rcases of_shows_session hdefinitions hclosed hsources hold_standard outcome houtcome v hv stored
    hstored with
    hoccurs | ⟨pieces, hpieces, rfl⟩
  · exact .inl ⟨hoccurs, readsAlone_iff.mpr hoccurs.isString⟩
  · refine .inr ⟨pieces, hpieces, rfl, ?_⟩
    exact readsAlone_enquote_iff fun piece hpiece => (hpieces piece hpiece).isString

/-- Two strings in different marks are joined in double quotes. -/
theorem session_strings_mixed_marks :
    (standard.run "(+ 'ab' \"c\")").1 = .ok (.string "\"abc\"") ∧
      ((OccursIn ["(+ 'ab' \"c\")"] "\"abc\"" ∧ ReadsAlone "\"abc\"") ∨
        ∃ pieces : List String, (∀ piece ∈ pieces, OccursIn ["(+ 'ab' \"c\")"] piece) ∧
          "\"abc\"" = enquote (String.join (pieces.map unquote)) ∧
          (ReadsAlone "\"abc\"" ↔ ∀ piece ∈ pieces, IsGuarded '"' (unquote piece).toList)) := by
  have hrun : (standard.run "(+ 'ab' \"c\")").1 = .ok (.string "\"abc\"") :=
    eq_ok_string (by decide +kernel)
  refine ⟨hrun, ?_⟩
  exact session_strings ["(+ 'ab' \"c\")"] _ List.mem_cons_self _ (.inl hrun) _
    (by simp [Value.leaves])

/-- A double quote between single ones is a mark like any other once it is joined: what is left of
it is a string and an open one. -/
theorem not_readsAlone_of_double_quote :
    ¬∀ outcome ∈ standard.session [⟨"(+ 'a\"b' \"c\")", false⟩], ∀ v, Shows outcome v →
      ∀ stored, .string stored ∈ v.leaves → ReadsAlone stored := by
  intro h
  have hrun : (standard.run "(+ 'a\"b' \"c\")").1 = .ok (.string "\"a\"bc\"") :=
    eq_ok_string (by decide +kernel)
  obtain ⟨token, htokens, -⟩ :=
    h _ List.mem_cons_self _ (.inl hrun) "\"a\"bc\"" (by simp [Value.leaves])
  have hopen : tokenize "\"a\"bc\"" = .error (.unterminatedString "\"a\"bc\"" 3) := rfl
  rw [hopen] at htokens
  cases htokens

end Environment

end ListLanguage
