/-!
# Whole numbers in writing

Digits in a base from 2 to 16, with letters for the digits from ten on, and decimal numbers with an
optional sign. Nothing but digits is read: no separators, no blanks.
-/

namespace WikiMarkup.Decimal

/-- The value of a digit in bases up to 16. -/
def digit? (c : Char) : Option Nat :=
  if '0' ≤ c ∧ c ≤ '9' then some (c.toNat - '0'.toNat)
  else if 'a' ≤ c ∧ c ≤ 'f' then some (c.toNat - 'a'.toNat + 10)
  else if 'A' ≤ c ∧ c ≤ 'F' then some (c.toNat - 'A'.toNat + 10)
  else none

def isDigit (c : Char) : Bool := '0' ≤ c && c ≤ '9'

/-- The number whose digits follow `high`. -/
def digitsFrom (base : Nat) (high : Nat) : List Char → Option Nat
  | [] => some high
  | c :: cs =>
    match digit? c with
    | some d => if d < base then digitsFrom base (high * base + d) cs else none
    | none => none

/-- The number that at least one digit writes. -/
def natOfDigits? (base : Nat) : List Char → Option Nat
  | [] => none
  | cs => digitsFrom base 0 cs

/-- A sign and the characters after it. -/
def splitSign : List Char → Bool × List Char
  | '-' :: cs => (true, cs)
  | '+' :: cs => (false, cs)
  | cs => (false, cs)

/-- The integer that an optional sign and digits write. -/
def intOfDigits? (base : Nat) (cs : List Char) : Option Int :=
  let (negative, cs) := splitSign cs
  (natOfDigits? base cs).map fun n => if negative then -(n : Int) else n

/-- The range of the signed integers of `bits` bits. -/
def inSigned (bits : Nat) (n : Int) : Bool :=
  -Int.pow 2 (bits - 1) ≤ n && n < Int.pow 2 (bits - 1)

/-- A signed integer of 64 bits in decimal. -/
def int64OfString? (s : String) : Option Int :=
  (intOfDigits? 10 s.toList).filter (inSigned 64)

/-- An unsigned integer of 64 bits in decimal, with an optional plus sign. -/
def nat64OfString? (s : String) : Option Nat :=
  let cs := match s.toList with
    | '+' :: cs => cs
    | cs => cs
  (natOfDigits? 10 cs).filter (· < Nat.pow 2 64)

end WikiMarkup.Decimal
