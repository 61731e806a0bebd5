import ListLanguage.Error
import ListLanguage.Text.Blank
import ListLanguage.Token

/-!
# Cutting a source into tokens

The source is read one character at a time. A `Scanner` holds the tokens found so far and the
**pending** atom, which is empty between atoms. Outside a string, a bracket ends the pending
atom and is a token of its own, a blank ends it and is dropped, and any other character joins
it; a quote mark also opens a string. Inside a string every character joins, and the mark that
opened the string ends both the string and the atom, unless a backslash stands before it.

So a string ends an atom but need not begin one, and an atom holds at most one string.

At the end of the source the pending atom is complete. If its string is still open, the strict
reading fails; the lenient one takes the atom as it is.
-/

namespace ListLanguage

/-- The state of reading a source. -/
structure Scanner where
  /-- The tokens that are complete, the last one first. -/
  tokens : List Token := []
  /-- The byte offset at which the pending atom starts, or would start. -/
  start : Nat := 0
  /-- The pending atom, its last character first. -/
  pending : List Char := []
  /-- The mark that ends the string that is being read. -/
  mark : Option Char := none

namespace Scanner

/-- The byte offset of the next character. -/
def offset (s : Scanner) : Nat :=
  s.start + Text.byteLength s.pending

/-- Completes the pending atom. -/
def flush (s : Scanner) : Scanner where
  tokens := if s.pending.isEmpty then s.tokens else .atom s.pending.reverse s.start :: s.tokens
  start := s.offset

/-- Adds a character to the pending atom. -/
def join (s : Scanner) (c : Char) : Scanner :=
  { s with pending := c :: s.pending }

/-- Completes the pending atom and passes over the character after it. -/
def skip (s : Scanner) (c : Char) : Scanner :=
  let s := s.flush
  { s with start := s.start + c.utf8Size }

/-- Completes the pending atom and makes a token of the character after it. -/
def bracket (s : Scanner) (kind : Token.Kind) (c : Char) : Scanner :=
  let s := s.flush
  { s with
    tokens := ⟨kind, String.singleton c, s.start⟩ :: s.tokens
    start := s.start + c.utf8Size }

/-- Reads one character. -/
def step (s : Scanner) (c : Char) : Scanner :=
  match s.mark with
  | some mark =>
    if c = mark ∧ s.pending.head? ≠ some '\\' then (s.join c).flush else s.join c
  | none =>
    if c = '(' then s.bracket .opening c
    else if c = ')' then s.bracket .closing c
    else if Text.isBlank c then s.skip c
    else if Text.isQuoteMark c then { s.join c with mark := some c }
    else s.join c

/-- Reads some characters. -/
def read (s : Scanner) (cs : List Char) : Scanner :=
  cs.foldl step s

@[simp]
theorem read_nil (s : Scanner) : s.read [] = s := rfl

@[simp]
theorem read_cons (s : Scanner) (c : Char) (cs : List Char) :
    s.read (c :: cs) = (s.step c).read cs := rfl

/-- Reading can stop anywhere and go on from there. -/
theorem read_append (s : Scanner) (as bs : List Char) :
    s.read (as ++ bs) = (s.read as).read bs :=
  List.foldl_append ..

/-- Each character moves the offset by its length in bytes. -/
@[simp]
theorem offset_step (s : Scanner) (c : Char) : (s.step c).offset = s.offset + c.utf8Size := by
  unfold step
  split
  · split <;> simp [join, flush, offset] <;> omega
  · split
    · simp [bracket, flush, offset]
    · split
      · simp [bracket, flush, offset]
      · split
        · simp [skip, flush, offset]
        · split <;> simp [join, offset] <;> omega

end Scanner

/-- Cuts a source into tokens. A string that is open at the end is an error, unless reading is
`lenient`. -/
def tokenize (source : String) (lenient : Bool := false) : Except LexError (List Token) :=
  let s := ({} : Scanner).read source.toList
  if s.mark.isSome && !lenient then .error (.unterminatedString source s.start)
  else .ok s.flush.tokens.reverse

end ListLanguage
