import WikiMarkup.Decimal.Binary64

/-!
# YAML scalars

How a text is written as a YAML scalar. A text with line feeds is written as a literal block; a
text that a reader would take for something else than a string is quoted; all others are plain if
they can be. A style that cannot hold the text gives way to quotes, and single quotes to double
quotes, which can hold every text. Lines are never folded.
-/

namespace WikiMarkup.Yaml

/-! ## Characters -/

def isBreak (c : Char) : Bool :=
  c == '\n' || c == '\r' || c == '\x85' || c == '\u2028' || c == '\u2029'

/-- Blanks, breaks and the null character separate words. -/
def isSeparator (c : Char) : Bool := c == ' ' || c == '\t' || c == '\x00' || isBreak c

/-- Characters that may stand outside double quotes. -/
def isPrintable (c : Char) : Bool :=
  let n := c.toNat
  n == 0xA || (0x20 ≤ n && n ≤ 0x7E) || (0xA0 ≤ n && n ≤ 0xD7FF) ||
    (0xE000 ≤ n && n ≤ 0xFFFD && n != 0xFEFF) || 0x10000 ≤ n

/-- Whether a separator or the end of the text comes next. -/
def endsWord : List Char → Bool
  | [] => true
  | c :: _ => isSeparator c

/-! ## Texts that look like something else -/

/-- Digits of a base after their mark, below the bound. -/
def isMarked (bound : Nat) (cs : List Char) : Bool :=
  let below (base : Nat) (cs : List Char) : Bool :=
    match Decimal.natOfDigits? base cs with
    | some n => n < bound
    | none => false
  match cs with
  | '0' :: 'x' :: cs => below 16 cs
  | '0' :: 'o' :: cs => below 8 cs
  | '0' :: 'b' :: cs => below 2 cs
  | _ => false

/-- An integer of up to 128 bits in hexadecimal, octal or binary. -/
def isMarkedInteger : List Char → Bool
  | '+' :: cs => isMarked (Nat.pow 2 128) cs
  | '-' :: cs => isMarked (Nat.pow 2 127 + 1) cs
  | cs => isMarked (Nat.pow 2 128) cs

/-- Several digits of which the first is zero, with or without a sign. -/
def isZeroLed (cs : List Char) : Bool :=
  match (Decimal.splitSign cs).2 with
  | '0' :: c :: cs => (c :: cs).all Decimal.isDigit
  | _ => false

/-- A decimal fraction or integer for which there is a binary number of 64 bits. -/
def isFiniteLiteral (cs : List Char) : Bool :=
  (Decimal.Literal.ofChars? cs).any fun l => (Decimal.Binary64.ofLiteral l).isFinite

def wordsForNumbers : List String :=
  [".inf", ".Inf", ".INF", "+.inf", "+.Inf", "+.INF", "-.inf", "-.Inf", "-.INF",
   ".nan", ".NaN", ".NAN"]

def wordsForOthers : List String :=
  ["", "~", "null", "Null", "NULL", "true", "True", "TRUE", "false", "False", "FALSE"]

/-- Whether a reader would not take the plain text for a string. -/
def looksTyped (s : String) : Bool :=
  let cs := s.toList
  wordsForOthers.contains s || wordsForNumbers.contains s || isMarkedInteger cs ||
    isFiniteLiteral cs || isZeroLed cs

/-! ## What a style can hold -/

/-- Whether an indicator at the head of the text, or an indicator after the given character, would
change how a plain text is read. -/
def hasIndicator (before : Option Char) : List Char → Bool
  | [] => false
  | c :: cs =>
    let here := match before with
      | none =>
        "#,[]\x7b\x7d&*!|>'\"%@`".contains c || ((c == '?' || c == ':' || c == '-') && endsWord cs)
      | some b => (c == ':' && endsWord cs) || (c == '#' && isSeparator b)
    here || hasIndicator (some c) cs

/-- Whether two neighbours satisfy the relation. -/
def someNeighbours (r : Char → Char → Bool) : List Char → Bool
  | c :: d :: cs => r c d || someNeighbours r (d :: cs)
  | _ => false

def spaceBeforeBreak (cs : List Char) : Bool := someNeighbours (fun c d => c == ' ' && isBreak d) cs

def spaceAfterBreak (cs : List Char) : Bool := someNeighbours (fun c d => isBreak c && d == ' ') cs

def isSpaceOrBreak (c : Char) : Bool := c == ' ' || isBreak c

def fitsPlain (cs : List Char) : Bool :=
  !(cs.head?.any isSpaceOrBreak || cs.getLast?.any isSpaceOrBreak || cs.any isBreak ||
    !cs.all isPrintable || hasIndicator none cs ||
    "---".toList.isPrefixOf cs || "...".toList.isPrefixOf cs)

def fitsSingleQuotes (cs : List Char) : Bool :=
  cs.all isPrintable && !spaceBeforeBreak cs && !spaceAfterBreak cs

def fitsLiteral (cs : List Char) : Bool :=
  cs.all isPrintable && !spaceBeforeBreak cs && cs.getLast? != some ' '

inductive Style where
  | plain
  | singleQuoted
  | doubleQuoted
  | literal
deriving DecidableEq, Repr

/-- The style of a text. -/
def styleOf (s : String) : Style :=
  let cs := s.toList
  let quoted := if fitsSingleQuotes cs then .singleQuoted else .doubleQuoted
  if cs.contains '\n' then if fitsLiteral cs then .literal else .doubleQuoted
  else if looksTyped s then quoted
  else if fitsPlain cs then .plain
  else quoted

/-! ## Writing -/

def blanks (n : Nat) : String := "".pushn ' ' n

/-- Write characters, with the indentation before the first one of each line but the given one;
`fresh` tells whether a line has just begun. -/
def writeLines (indent : Nat) (write : Char → String) (fresh : Bool) : List Char → String → String
  | [], out => out
  | c :: cs, out =>
    if isBreak c then writeLines indent write true cs (out.push c)
    else
      let out := if fresh then out ++ blanks indent else out
      writeLines indent write false cs (out ++ write c)

/-- Upper-case hexadecimal digits, at least `width` of them. -/
def upperHex (width n : Nat) : String :=
  let digits := (Nat.toDigits 16 n).map Char.toUpper
  String.ofList (List.replicate (width - digits.length) '0' ++ digits)

/-- One character between double quotes. -/
def escapeChar (c : Char) : String :=
  let n := c.toNat
  if isPrintable c && !isBreak c && c != '"' && c != '\\' then c.toString
  else match n with
    | 0x00 => "\\0"
    | 0x07 => "\\a"
    | 0x08 => "\\b"
    | 0x09 => "\\t"
    | 0x0A => "\\n"
    | 0x0B => "\\v"
    | 0x0C => "\\f"
    | 0x0D => "\\r"
    | 0x1B => "\\e"
    | 0x22 => "\\\""
    | 0x5C => "\\\\"
    | 0x85 => "\\N"
    | 0xA0 => "\\_"
    | 0x2028 => "\\L"
    | 0x2029 => "\\P"
    | _ =>
      if n ≤ 0xFF then "\\x" ++ upperHex 2 n
      else if n ≤ 0xFFFF then "\\u" ++ upperHex 4 n
      else "\\U" ++ upperHex 8 n

/-- Between single quotes the quote is written twice. -/
def quoteChar (c : Char) : String := if c == '\'' then "''" else c.toString

/-- The head of a literal block: a mark of the indentation if the text begins with a blank or a
break, and a mark of how the text ends. -/
def literalHead (cs : List Char) : String :=
  let indentation := if cs.head?.any isSpaceOrBreak then "2" else ""
  let ending := match cs.reverse with
    | [] => "-"
    | [last] => if isBreak last then "+" else "-"
    | last :: previous :: _ =>
      if isBreak last then if isBreak previous then "+" else "" else "-"
  "|" ++ indentation ++ ending

/-- Write a text as a scalar and end its last line; the lines of a block stand at `indent`. -/
def appendScalar (indent : Nat) (s : String) (out : String) : String :=
  let cs := s.toList
  match styleOf s with
  | .plain => out ++ s ++ "\n"
  | .singleQuoted =>
    let out := writeLines indent quoteChar false cs (out.push '\'')
    let out := if cs.getLast?.any isBreak then out ++ blanks indent else out
    out ++ "'\n"
  | .doubleQuoted => (cs.foldl (fun out c => out ++ escapeChar c) (out.push '"')) ++ "\"\n"
  | .literal =>
    let out := writeLines indent Char.toString true cs (out ++ literalHead cs ++ "\n")
    if cs.getLast?.any isBreak then out else out.push '\n'

end WikiMarkup.Yaml
