/-!
# Quoted text

A string is kept with its quote marks, as it stands in a program: `"ab"` is four characters
long. Two marks open and close strings, `"` and `'`. `isQuoted` recognises stored text of
that shape, `unquote` takes the first and the last character off, and `enquote` puts double
quotes around a content. Taking off what was put on gives the content back
(`unquote_enquote`); putting on what was taken off need not, since the marks of the stored
text may be single ones or none at all.
-/

namespace ListLanguage

namespace Text

/-- The two characters that open and close a string. -/
def isQuoteMark (c : Char) : Bool :=
  c == '"' || c == '\''

/-- Whether a text has at least two characters and begins and ends with one and the same
quote mark. -/
def isQuoted : List Char → Bool
  | [] => false
  | mark :: rest => isQuoteMark mark && rest.getLast? == some mark

/-- Puts double quotes around a content. -/
def enquote (content : String) : String :=
  "\"" ++ content ++ "\""

/-- Takes one character off each end, whatever the two are. -/
def unquote (stored : String) : String :=
  String.ofList stored.toList.tail.dropLast

@[simp]
theorem toList_enquote (content : String) :
    (enquote content).toList = '"' :: (content.toList ++ ['"']) := by
  simp [enquote]

@[simp]
theorem unquote_enquote (content : String) : unquote (enquote content) = content := by
  simp [unquote]

/-- What `enquote` builds is quoted. -/
@[simp]
theorem isQuoted_enquote (content : String) : isQuoted (enquote content).toList := by
  simp [isQuoted, isQuoteMark]

end Text

end ListLanguage
