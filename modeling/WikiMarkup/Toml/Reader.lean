/-!
# Reading TOML

The parts of a document are read from the head of a list of characters. What reads a part finds
nothing, or a value and the characters behind it; why it finds nothing is not told. Lines end with a
line feed, which a carriage return may precede.
-/

namespace WikiMarkup.Toml

/-- What reads a value at the head of a text also returns the text behind it. -/
abbrev Reader (α : Type) := List Char → Option (α × List Char)

/-- The text behind the character given. -/
def expect (c : Char) : List Char → Option (List Char)
  | d :: cs => if d = c then some cs else none
  | [] => none

def isBlank (c : Char) : Bool := c == ' ' || c == '\t'

/-- Characters that may stand in quoted text and comments: no control character but the tab. -/
def isTextChar (c : Char) : Bool := c == '\t' || (' ' ≤ c && c != '\x7f')

def skipBlanks (cs : List Char) : List Char := cs.dropWhile isBlank

/-- The text behind a line break. -/
def lineBreak? : List Char → Option (List Char)
  | '\n' :: cs => some cs
  | '\r' :: '\n' :: cs => some cs
  | _ => none

end WikiMarkup.Toml
