import WikiMarkup.Decimal.Binary64

/-!
# The shortest decimal text of a binary number

The numbers that round to a binary number form an interval about it; its ends belong to it if the
significand is even. The text has the fewest digits with which a decimal number lies in that
interval, and of the decimal numbers with so few digits it is the nearest, of two equally near ones
the upper one. They are found on grids of powers of ten, from coarse to fine: if any point of a grid
lies in the interval, so does one of the two that enclose the number. The text is positional,
whatever the size of the number.
-/

namespace WikiMarkup.Decimal

namespace Binary64

/-- The decimal number on the grid of step `10 ^ place` that reads back as
`significand · 2 ^ exponent` and is nearest to it, in units of the grid. -/
def onGrid? (significand : Nat) (exponent : Int) (place : Int) : Option Nat :=
  -- a quarter of a unit of the significand, in units of the grid, is `quarter / grid`
  let quarter := Nat.pow 2 (exponent - 2).toNat * Nat.pow 10 (-place).toNat
  let grid := Nat.pow 2 (2 - exponent).toNat * Nat.pow 10 place.toNat
  let middle := 4 * significand * quarter
  let lowest :=
    (if significand = Nat.pow 2 52 ∧ minExponent < exponent then 4 * significand - 1
      else 4 * significand - 2) * quarter
  let highest := (4 * significand + 2) * quarter
  let inside (c : Nat) : Bool :=
    if significand % 2 = 0 then lowest ≤ c * grid && c * grid ≤ highest
    else lowest < c * grid && c * grid < highest
  let below := middle / grid
  let above := below + 1
  let nearBelow := middle - below * grid
  let nearAbove := above * grid - middle
  match inside below, inside above with
  | true, true => some (if nearBelow < nearAbove then below else above)
  | true, false => some below
  | false, true => some above
  | false, false => none

/-- Search grids from the place given to finer ones; at most `fuel` of them. The digits found come
with the place of the last one. -/
def searchGrids (significand : Nat) (exponent : Int) : Nat → Int → Option (Nat × Int)
  | 0, _ => none
  | fuel + 1, place =>
    match onGrid? significand exponent place with
    | some digits => some (digits, place)
    | none => searchGrids significand exponent fuel (place - 1)

/-- Digits whose last one stands at `place`, written without an exponent. -/
def positional (digits : Nat) (place : Int) : String :=
  let written := Nat.toDigits 10 digits
  match place with
  | .ofNat zeros => String.ofList (written ++ List.replicate zeros '0')
  | .negSucc n =>
    let places := n + 1
    let written := List.replicate (places + 1 - written.length) '0' ++ written
    let whole := written.length - places
    String.ofList (written.take whole ++ '.' :: written.drop whole)

/-- The text of a magnitude; every number lies on the grid of `10 ^ minExponent`. -/
def magnitudeText (significand : Nat) (exponent : Int) : String :=
  if significand = 0 then "0"
  else
    match searchGrids significand exponent 1400 309 with
    | some (digits, place) => positional digits place
    | none => ""

def text : Binary64 → String
  | .finite negative significand exponent =>
    (if negative then "-" else "") ++ magnitudeText significand exponent
  | .infinite negative => (if negative then "-" else "") ++ "inf"
  | .nan => "NaN"

/-- The text, with a fraction of zero if a finite number has none. -/
def textWithFraction (x : Binary64) : String :=
  match x with
  | .finite _ _ _ => if x.text.contains '.' then x.text else x.text ++ ".0"
  | _ => x.text

end Binary64

end WikiMarkup.Decimal
