/-!
# A window into a text

An error in a long text shows the place where it arose: forty characters, starting ten bytes
before the place. Places are byte offsets in UTF-8, so the start is moved down to the nearest
boundary between characters; `splitBytes` finds it as the longest run of leading characters
that takes no more than the given number of bytes. What is cut off on either side is marked
by `[...]`, and the window stays on one line.
-/

namespace ListLanguage

namespace Text

/-- The number of bytes that a run of characters takes in UTF-8. -/
def byteLength : List Char → Nat
  | [] => 0
  | c :: cs => c.utf8Size + byteLength cs

@[simp]
theorem byteLength_nil : byteLength [] = 0 := rfl

@[simp]
theorem byteLength_cons (c : Char) (cs : List Char) :
    byteLength (c :: cs) = c.utf8Size + byteLength cs := rfl

@[simp]
theorem byteLength_append (as bs : List Char) :
    byteLength (as ++ bs) = byteLength as + byteLength bs := by
  induction as with
  | nil => simp
  | cons a as ih => simp [ih, Nat.add_assoc]

@[simp]
theorem byteLength_reverse (cs : List Char) : byteLength cs.reverse = byteLength cs := by
  induction cs with
  | nil => rfl
  | cons c cs ih => simp [ih, Nat.add_comm]

/-- Cuts a text at the last boundary between characters that is not above byte `n`. -/
def splitBytes : Nat → List Char → List Char × List Char
  | _, [] => ([], [])
  | n, c :: cs =>
    if c.utf8Size ≤ n then
      let (before, after) := splitBytes (n - c.utf8Size) cs
      (c :: before, after)
    else ([], c :: cs)

/-- Nothing is lost at the cut. -/
theorem splitBytes_append (n : Nat) (cs : List Char) :
    (splitBytes n cs).1 ++ (splitBytes n cs).2 = cs := by
  induction cs generalizing n with
  | nil => rfl
  | cons c cs ih =>
    unfold splitBytes
    split
    · simp [ih]
    · rfl

/-- The part before the cut takes at most `n` bytes. -/
theorem byteLength_splitBytes_le (n : Nat) (cs : List Char) :
    byteLength (splitBytes n cs).1 ≤ n := by
  induction cs generalizing n with
  | nil => simp [splitBytes]
  | cons c cs ih =>
    unfold splitBytes
    split
    · have := ih (n - c.utf8Size)
      simp only [byteLength_cons]
      omega
    · simp

/-- The mark for text that a window leaves out. -/
def ellipsis : String := "[...]"

/-- The number of characters in a window. -/
def windowLength : Nat := 40

/-- The number of bytes that a window shows before its place. -/
def windowLead : Nat := 10

/-- Keeps a window on one line: a line feed is shown as `\n`, a carriage return not at all. -/
def oneLine (cs : List Char) : List Char :=
  cs.flatMap fun c => if c = '\n' then ['\\', 'n'] else if c = '\r' then [] else [c]

/-- The window of `text` around the byte `offset`, which may lie inside a character or past
the end. -/
def window (text : String) (offset : Nat) : String :=
  let (before, after) := splitBytes (offset - windowLead) text.toList
  (if before.isEmpty then "" else ellipsis)
    ++ String.ofList (oneLine (after.take windowLength))
    ++ (if (after.drop windowLength).isEmpty then "" else ellipsis)

end Text

end ListLanguage
