import WikiMarkup.Decimal.Binary64
import WikiMarkup.Toml.Reader

/-!
# Numbers in TOML

Integers are decimal with an optional sign, or hexadecimal, octal or binary without one, and have
64 bits with a sign. Fractions have digits after a point, an exponent, or both, or are the words
`inf` and `nan`. Single underscores may stand between digits. A decimal number of two or more digits
does not start with a zero.
-/

namespace WikiMarkup.Toml

namespace Number

/-- Further digits of a run; single underscores between digits are left out. -/
def moreDigits (base : Nat) : List Char → List Char × List Char
  | [] => ([], [])
  | c :: cs =>
    if (Decimal.digit? c).any (· < base) then
      let (digits, rest) := moreDigits base cs
      (c :: digits, rest)
    else
      match c, cs with
      | '_', d :: rest =>
        if (Decimal.digit? d).any (· < base) then
          let (digits, rest) := moreDigits base rest
          (d :: digits, rest)
        else ([], c :: cs)
      | _, _ => ([], c :: cs)

/-- A digit and further digits. -/
def readDigits (base : Nat) : Reader (List Char)
  | c :: cs =>
    if (Decimal.digit? c).any (· < base) then
      let (digits, rest) := moreDigits base cs
      some (c :: digits, rest)
    else none
  | [] => none

/-- The sign in front of a number, as it is written. -/
def readSign : List Char → List Char × List Char
  | '+' :: cs => (['+'], cs)
  | '-' :: cs => (['-'], cs)
  | cs => ([], cs)

/-- A decimal integer with its sign; after a zero at its head no digit follows. -/
def readDecimal : Reader (List Char) := fun cs =>
  let (sign, cs) := readSign cs
  match cs with
  | '0' :: cs => some (sign ++ ['0'], cs)
  | cs => (readDigits 10 cs).map fun (digits, rest) => (sign ++ digits, rest)

/-- The digits after a point. -/
def readFraction : Reader (List Char)
  | '.' :: cs => (readDigits 10 cs).map fun (digits, rest) => ('.' :: digits, rest)
  | _ => none

def readExponent : Reader (List Char)
  | c :: cs =>
    if c = 'e' ∨ c = 'E' then
      let (sign, cs) := readSign cs
      (readDigits 10 cs).map fun (digits, rest) => ('e' :: sign ++ digits, rest)
    else none
  | [] => none

/-- What makes a number a fraction: an exponent, or digits after a point with or without one. -/
def readFractionPart : Reader (List Char) := fun cs =>
  match readExponent cs with
  | some found => some found
  | none => do
    let (places, cs) ← readFraction cs
    match readExponent cs with
    | some (exponent, cs) => return (places ++ exponent, cs)
    | none => return (places, cs)

/-- The fraction that a literal writes; beyond the largest positive number there is none. -/
def fractionOfLiteral? (written : List Char) : Option Decimal.Binary64 :=
  match (Decimal.Literal.ofChars? written).map Decimal.Binary64.ofLiteral with
  | some (.infinite false) | none => none
  | some x => some x

/-- The words for what is not a finite number. -/
def readSpecial : Reader Decimal.Binary64
  | 'i' :: 'n' :: 'f' :: cs => some (.infinite false, cs)
  | 'n' :: 'a' :: 'n' :: cs => some (.nan, cs)
  | _ => none

def readFloat : Reader Decimal.Binary64 := fun cs =>
  match readDecimal cs with
  | some (whole, rest) => do
    let (places, rest) ← readFractionPart rest
    return (← fractionOfLiteral? (whole ++ places), rest)
  | none =>
    let (sign, cs) := readSign cs
    (readSpecial cs).map fun (x, rest) => (if sign = ['-'] then x.negate else x, rest)

/-- Digits in a base of two's powers, after the mark of the base. -/
def readInBase (base : Nat) : Reader Int := fun cs => do
  let (digits, rest) ← readDigits base cs
  return (← (Decimal.intOfDigits? base digits).filter (Decimal.inSigned 64), rest)

def readInteger : Reader Int
  | '0' :: 'x' :: cs => readInBase 16 cs
  | '0' :: 'o' :: cs => readInBase 8 cs
  | '0' :: 'b' :: cs => readInBase 2 cs
  | cs => do
    let (digits, rest) ← readDecimal cs
    return (← (Decimal.intOfDigits? 10 digits).filter (Decimal.inSigned 64), rest)

end Number

end WikiMarkup.Toml
