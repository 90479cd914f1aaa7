import WikiMarkup.Decimal.Literal

/-!
# Binary numbers of 64 bits

A binary number is a whole number times a power of two, an infinity, or no number at all. The whole
number has 53 bits, or fewer if the exponent is the smallest one. A decimal literal stands for the
binary number nearest to it, of two equally near ones for the even one; from half a unit beyond the
largest number on it stands for an infinity. All arithmetic here is exact.
-/

namespace WikiMarkup.Decimal

/-- The quotient rounded to the nearest whole number, a half to the even neighbour. -/
def divToNearestEven (a b : Nat) : Nat :=
  let quotient := a / b
  let twice := 2 * (a % b)
  if twice < b ∨ (twice = b ∧ quotient % 2 = 0) then quotient else quotient + 1

/-- The quotient rounded to the nearest whole number, a half upwards. -/
def divToNearestUp (a b : Nat) : Nat := (2 * a + b) / (2 * b)

/-- The number `significand · 2 ^ exponent` with a sign of its own for zero, or a special value. -/
inductive Binary64 where
  | finite (negative : Bool) (significand : Nat) (exponent : Int)
  | infinite (negative : Bool)
  | nan
deriving DecidableEq, Repr, Inhabited

namespace Binary64

/-- The exponent of the smallest positive number. -/
def minExponent : Int := -1074

/-- The exponent of the largest number. -/
def maxExponent : Int := 971

/-- The binary logarithm of the quotient of two positive numbers, rounded down. -/
def logOfQuotient (a b : Nat) : Int :=
  let log : Int := (a.log2 : Int) - b.log2
  if b * Nat.pow 2 log.toNat ≤ a * Nat.pow 2 (-log).toNat then log else log - 1

/-- The binary number nearest to the quotient of two positive numbers. -/
def ofQuotient (negative : Bool) (a b : Nat) : Binary64 :=
  let exponent := max minExponent (logOfQuotient a b - 52)
  let significand :=
    divToNearestEven (a * Nat.pow 2 (-exponent).toNat) (b * Nat.pow 2 exponent.toNat)
  let (significand, exponent) :=
    if significand = Nat.pow 2 53 then (Nat.pow 2 52, exponent + 1) else (significand, exponent)
  if exponent ≤ maxExponent then .finite negative significand exponent else .infinite negative

def zero (negative : Bool) : Binary64 := .finite negative 0 minExponent

/-- The binary number nearest to a literal. Literals far out of range are settled by the place of
their first digit, so that no power of ten grows with the exponent. -/
def ofLiteral (l : Literal) : Binary64 :=
  let firstPlace := l.exponent + (Nat.toDigits 10 l.mantissa).length
  if l.mantissa = 0 ∨ firstPlace < -330 then zero l.negative
  else if firstPlace > 310 then .infinite l.negative
  else
    ofQuotient l.negative (l.mantissa * Nat.pow 10 l.exponent.toNat)
      (Nat.pow 10 (-l.exponent).toNat)

def isFinite : Binary64 → Bool
  | .finite _ _ _ => true
  | .infinite _ | .nan => false

def negate : Binary64 → Binary64
  | .finite negative significand exponent => .finite (!negative) significand exponent
  | .infinite negative => .infinite (!negative)
  | .nan => .nan

/-- The nearest natural number below `bound`, a half upwards; zero for negative numbers and for what
is no number. -/
def toNatBelow (bound : Nat) : Binary64 → Nat
  | .finite true _ _ | .infinite true | .nan => 0
  | .infinite false => bound - 1
  | .finite false significand exponent =>
    min (bound - 1)
      (divToNearestUp (significand * Nat.pow 2 exponent.toNat) (Nat.pow 2 (-exponent).toNat))

end Binary64

end WikiMarkup.Decimal
