import WikiMarkup.Decimal.Integer

/-!
# Decimal fractions in writing

A decimal literal is an optional sign, digits with an optional point among or beside them, and an
optional exponent; there is at least one digit besides those of the exponent. Its value is a whole
number times a power of ten.
-/

namespace WikiMarkup.Decimal

/-- The number `mantissa · 10 ^ exponent`, with a sign of its own for zero. -/
structure Literal where
  negative : Bool
  mantissa : Nat
  exponent : Int
deriving DecidableEq, Repr

namespace Literal

/-- The value of the digits at the head of the list after `high`, their number, and the rest. -/
def readDigits (high count : Nat) : List Char → Nat × Nat × List Char
  | [] => (high, count, [])
  | c :: cs =>
    if isDigit c then readDigits (high * 10 + (c.toNat - '0'.toNat)) (count + 1) cs
    else (high, count, c :: cs)

/-- An exponent, or nothing at all. -/
def readExponent? : List Char → Option Int
  | [] => some 0
  | c :: cs => if c = 'e' ∨ c = 'E' then intOfDigits? 10 cs else none

def ofChars? (cs : List Char) : Option Literal :=
  let (negative, cs) := splitSign cs
  let (whole, wholeDigits, cs) := readDigits 0 0 cs
  let (mantissa, places, cs) := match cs with
    | '.' :: cs => readDigits whole 0 cs
    | cs => (whole, 0, cs)
  if wholeDigits + places = 0 then none
  else (readExponent? cs).map fun e => ⟨negative, mantissa, e - places⟩

end Literal

end WikiMarkup.Decimal
