import WikiMarkup.Decimal.Integer
import WikiMarkup.Toml.Reader

/-!
# Quoted text in TOML

Text stands in double quotes, where a backslash starts an escape, or in single quotes, where every
character is itself. Three quotes in a row enclose text of several lines: a line break right after
them is dropped, a pair of carriage return and line feed counts as one line feed, and one or two
quotes may stand inside, also at the end. In double quotes a backslash at the end of a line drops
the break and the blanks and breaks after it. No control character but the tab is allowed.
-/

namespace WikiMarkup.Toml

namespace Quoted

/-- The character with the code point that `count` hexadecimal digits write. -/
def readCodePoint (count : Nat) : Reader Char := fun cs => do
  let n ← Decimal.natOfDigits? 16 (cs.take count)
  if count ≤ cs.length ∧ n.isValidChar then some (Char.ofNat n, cs.drop count) else none

/-- The character that an escape stands for, after the backslash. -/
def readEscape : Reader Char
  | 'b' :: cs => some ('\x08', cs)
  | 't' :: cs => some ('\t', cs)
  | 'n' :: cs => some ('\n', cs)
  | 'f' :: cs => some ('\x0c', cs)
  | 'r' :: cs => some ('\r', cs)
  | '"' :: cs => some ('"', cs)
  | '\\' :: cs => some ('\\', cs)
  | 'u' :: cs => readCodePoint 4 cs
  | 'U' :: cs => readCodePoint 8 cs
  | _ => none

/-- Drop blanks and line breaks. -/
def skipBlankLines : List Char → List Char
  | '\r' :: '\n' :: cs => skipBlankLines cs
  | c :: cs => if c = '\n' ∨ isBlank c then skipBlankLines cs else c :: cs
  | [] => []

/-- The text after a backslash that ends its line. -/
def continueLine? (cs : List Char) : Option (List Char) :=
  (lineBreak? (cs.dropWhile isBlank)).map skipBlankLines

/-- Which quotes enclose a text: the quote, whether it is written three times, and whether a
backslash starts an escape. -/
structure Style where
  quote : Char
  severalLines : Bool
  escapes : Bool

/-- The text after the closing quotes, with the quotes that stand before them in the text. -/
def close? (style : Style) (cs : List Char) : Option (List Char × List Char) :=
  let q := style.quote
  if style.severalLines then
    match (cs.takeWhile (· == q)).length with
    | 0 | 1 | 2 => none
    | 3 => some ([], cs.drop 3)
    | 4 => some ([q], cs.drop 4)
    | _ => some ([q, q], cs.drop 5)
  else
    match cs with
    | c :: cs => if c = q then some ([], cs) else none
    | [] => none

/-- The text up to its closing quotes; each round reads a character at least, and `fuel` bounds
their number. -/
def readBody (style : Style) : Nat → Reader (List Char)
  | 0, _ => none
  | fuel + 1, cs =>
    match close? style cs with
    | some found => some found
    | none =>
      match cs with
      | [] => none
      | c :: rest =>
        if style.escapes ∧ c = '\\' then
          match if style.severalLines then continueLine? rest else none with
          | some rest => readBody style fuel rest
          | none => do
            let (c, rest) ← readEscape rest
            let (text, rest) ← readBody style fuel rest
            return (c :: text, rest)
        else
          match if style.severalLines then lineBreak? cs else none with
          | some rest => (readBody style fuel rest).map fun (text, rest) => ('\n' :: text, rest)
          | none =>
            if isTextChar c then
              (readBody style fuel rest).map fun (text, rest) => (c :: text, rest)
            else none

def readWith (style : Style) (cs : List Char) : Option (String × List Char) :=
  (readBody style (cs.length + 1) cs).map fun (text, rest) => (String.ofList text, rest)

/-- Text in quotes on one line. -/
def readLine : Reader String
  | '"' :: cs => readWith ⟨'"', false, true⟩ cs
  | '\'' :: cs => readWith ⟨'\'', false, false⟩ cs
  | _ => none

/-- Text in quotes of any kind. -/
def read : Reader String
  | '"' :: '"' :: '"' :: cs => readWith ⟨'"', true, true⟩ ((lineBreak? cs).getD cs)
  | '\'' :: '\'' :: '\'' :: cs => readWith ⟨'\'', true, false⟩ ((lineBreak? cs).getD cs)
  | cs => readLine cs

end Quoted

end WikiMarkup.Toml
