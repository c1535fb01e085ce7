/-!
# ASCII letters and words

The upper and lower case of ASCII letters, which leaves every other character alone, and the words
made of ASCII letters, digits and the underscore.
-/

namespace TableGate.Text

/-- The text with its ASCII letters in upper case. -/
def upper (s : String) : String :=
  String.ofList (s.toList.map Char.toUpper)

def lower (s : String) : String :=
  String.ofList (s.toList.map Char.toLower)

/-- A character that may stand in a word: an ASCII letter, a digit or the underscore. -/
def isWordChar (c : Char) : Bool :=
  c.isAlphanum || c == '_'

/-- A character that may open an identifier: an ASCII letter or the underscore. -/
def isInitial (c : Char) : Bool :=
  c.isAlpha || c == '_'

/-- An identifier: a word that does not open with a digit. -/
def isIdentifier : List Char → Bool
  | [] => false
  | c :: cs => isInitial c && cs.all isWordChar

/-- A word of at least one character. -/
def isWord (cs : List Char) : Bool :=
  !cs.isEmpty && cs.all isWordChar

end TableGate.Text
