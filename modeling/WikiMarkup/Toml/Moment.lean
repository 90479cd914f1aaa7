import WikiMarkup.Decimal.Integer
import WikiMarkup.Toml.Reader

/-!
# Dates and times in TOML

A moment is a date, a time of day, or a date and a time with or without an offset from universal
time. It is written in one way: a `T` between date and time, a fraction of at most nine digits
without zeros at its end, and `Z` or a signed offset of hours and minutes.
-/

namespace WikiMarkup.Toml

structure Date where
  year : Nat
  month : Nat
  day : Nat
deriving DecidableEq, Repr

structure TimeOfDay where
  hour : Nat
  minute : Nat
  second : Nat
  /-- The digits of the fraction of the second, without zeros at the end. -/
  fraction : List Char
deriving DecidableEq, Repr

inductive Offset where
  | universal
  | ahead (hours minutes : Nat)
  | behind (hours minutes : Nat)
deriving DecidableEq, Repr

inductive Moment where
  | date (date : Date)
  | time (time : TimeOfDay)
  | dateTime (date : Date) (time : TimeOfDay)
  | instant (date : Date) (time : TimeOfDay) (offset : Offset)
deriving DecidableEq, Repr

/-! ## Reading -/

namespace Moment

/-- A number of exactly `count` digits. -/
def readDigits (count : Nat) : Reader Nat := fun cs =>
  if (cs.take count).all Decimal.isDigit ∧ count ≤ cs.length then
    (Decimal.natOfDigits? 10 (cs.take count)).map fun n => (n, cs.drop count)
  else none

/-- A number of two digits, not below `low` nor above `high`. -/
def readBetween (low high : Nat) : Reader Nat := fun cs => do
  let (n, cs) ← readDigits 2 cs
  if low ≤ n ∧ n ≤ high then some (n, cs) else none

def isLeapYear (year : Nat) : Bool := year % 4 == 0 && (year % 100 != 0 || year % 400 == 0)

def daysOfMonth (year month : Nat) : Nat :=
  if month = 2 then if isLeapYear year then 29 else 28
  else if month = 4 ∨ month = 6 ∨ month = 9 ∨ month = 11 then 30
  else 31

def readDate : Reader Date := fun cs => do
  let (year, cs) ← readDigits 4 cs
  let cs ← expect '-' cs
  let (month, cs) ← readBetween 1 12 cs
  let cs ← expect '-' cs
  let (day, cs) ← readBetween 1 (daysOfMonth year month) cs
  return (⟨year, month, day⟩, cs)

/-- The digits without zeros at their end. -/
def dropZeros (digits : List Char) : List Char := (digits.reverse.dropWhile (· == '0')).reverse

/-- The fraction of a second; digits from the tenth on do not count. -/
def readFraction : List Char → List Char × List Char
  | '.' :: cs =>
    match cs.takeWhile Decimal.isDigit with
    | [] => ([], '.' :: cs)
    | digits => (dropZeros (digits.take 9), cs.drop digits.length)
  | cs => ([], cs)

/-- A time of day; the second may be a leap second. -/
def readTime : Reader TimeOfDay := fun cs => do
  let (hour, cs) ← readBetween 0 23 cs
  let cs ← expect ':' cs
  let (minute, cs) ← readBetween 0 59 cs
  let cs ← expect ':' cs
  let (second, cs) ← readBetween 0 60 cs
  let (fraction, cs) := readFraction cs
  return (⟨hour, minute, second, fraction⟩, cs)

def readHoursMinutes : Reader (Nat × Nat) := fun cs => do
  let (hours, cs) ← readBetween 0 23 cs
  let cs ← expect ':' cs
  let (minutes, cs) ← readBetween 0 59 cs
  return ((hours, minutes), cs)

def readOffset : Reader Offset
  | 'Z' :: cs | 'z' :: cs => some (.universal, cs)
  | '+' :: cs => (readHoursMinutes cs).map fun ((h, m), cs) => (.ahead h m, cs)
  | '-' :: cs =>
    (readHoursMinutes cs).map fun ((h, m), cs) =>
      (if h = 0 ∧ m = 0 then .ahead h m else .behind h m, cs)
  | _ => none

/-- The time after a date and the mark between them. -/
def readTimeAfterDate : Reader TimeOfDay
  | c :: cs => if c = 'T' ∨ c = 't' ∨ c = ' ' then readTime cs else none
  | [] => none

def read : Reader Moment := fun cs =>
  match readDate cs with
  | some (d, cs) =>
    match readTimeAfterDate cs with
    | some (t, cs) =>
      match readOffset cs with
      | some (o, cs) => some (.instant d t o, cs)
      | none => some (.dateTime d t, cs)
    | none => some (.date d, cs)
  | none => (readTime cs).map fun (t, cs) => (.time t, cs)

/-! ## Writing -/

/-- A number with zeros in front up to the width. -/
def padded (width n : Nat) : String :=
  let digits := Nat.toDigits 10 n
  String.ofList (List.replicate (width - digits.length) '0' ++ digits)

end Moment

def Date.text (d : Date) : String :=
  Moment.padded 4 d.year ++ "-" ++ Moment.padded 2 d.month ++ "-" ++ Moment.padded 2 d.day

def TimeOfDay.text (t : TimeOfDay) : String :=
  Moment.padded 2 t.hour ++ ":" ++ Moment.padded 2 t.minute ++ ":" ++ Moment.padded 2 t.second ++
    if t.fraction.isEmpty then "" else "." ++ String.ofList t.fraction

def Offset.text : Offset → String
  | .universal => "Z"
  | .ahead h m => "+" ++ Moment.padded 2 h ++ ":" ++ Moment.padded 2 m
  | .behind h m => "-" ++ Moment.padded 2 h ++ ":" ++ Moment.padded 2 m

def Moment.text : Moment → String
  | .date d => d.text
  | .time t => t.text
  | .dateTime d t => d.text ++ "T" ++ t.text
  | .instant d t o => d.text ++ "T" ++ t.text ++ o.text

end WikiMarkup.Toml
