/-!
# Regular expressions

A small language of patterns: characters from a set, the start of the text, concatenation, ordered
choice and greedy repetition. A pattern can match in several ways at one place; `Regex.lengths`
lists how many characters each way takes, in the order in which backtracking finds them: an earlier
branch before a later one, and one more round of a repetition before leaving it. `Regex.find?` takes
the leftmost place at which there is a match, and the first match there, the preferred one.

A round of a repetition that takes nothing is its last one: the repetition goes on with another
round only behind a round that took a character, so it ends.
-/

namespace WikiMarkup

/-- The characters in one of the ranges, or those in none of them. -/
structure CharSet where
  ranges : List (Char × Char)
  negated : Bool := false
deriving DecidableEq, Repr

namespace CharSet

def contains (s : CharSet) (c : Char) : Bool :=
  (s.ranges.any fun r => r.1 ≤ c && c ≤ r.2) != s.negated

def single (c : Char) : CharSet := ⟨[(c, c)], false⟩

def range (lo hi : Char) : CharSet := ⟨[(lo, hi)], false⟩

/-- Every character but the line feed. -/
def anyInLine : CharSet := ⟨[('\n', '\n')], true⟩

theorem contains_range {lo hi c : Char} : (range lo hi).contains c = true ↔ lo ≤ c ∧ c ≤ hi := by
  simp [contains, range]

theorem contains_single (c d : Char) : (single d).contains c = (c == d) := by
  rw [Bool.eq_iff_iff, beq_iff_eq]
  constructor
  · intro h
    obtain ⟨hdc, hcd⟩ := contains_range.mp h
    exact Char.le_antisymm hcd hdc
  · rintro rfl
    exact contains_range.mpr ⟨Char.le_refl c, Char.le_refl c⟩

end CharSet

inductive Regex where
  /-- Matches everywhere and takes nothing. -/
  | empty
  | chars (set : CharSet)
  /-- Matches only at the start of the text. -/
  | start
  | seq (first second : Regex)
  /-- Prefers the matches of `first`. -/
  | alt (first second : Regex)
  /-- One round or more, as many as possible. -/
  | plus (body : Regex)
deriving DecidableEq, Repr

namespace Regex

def star (body : Regex) : Regex := .alt (.plus body) .empty

def optional (body : Regex) : Regex := .alt body .empty

def sequence (rs : List Regex) : Regex := rs.foldr .seq .empty

/-- The first of the branches is preferred. -/
def choice (first : Regex) : List Regex → Regex
  | [] => first
  | second :: rest => .alt first (choice second rest)

/-- The pattern at the start of the text only. -/
def anchored (r : Regex) : Regex := sequence [.start, r]

/-- The further rounds of a repetition, more rounds before fewer. A round is as preferred as the
body's match in it, so one that takes nothing and ends the repetition comes before the body's less
preferred matches. -/
def rounds (step : List Char → List Nat) : List Char → List Nat
  | [] => [0]
  | c :: cs =>
    let more := (step (c :: cs)).flatMap fun k =>
      if k = 0 then [0] else (rounds step (cs.drop (k - 1))).map (k + ·)
    (more ++ [0]).eraseDups
termination_by cs => cs.length
decreasing_by
  simp only [List.length_drop, List.length_cons]
  omega

/-- How many characters each match at this place takes, preferred matches first; `atStart` tells
whether the place is the start of the text. -/
def lengths : Regex → (atStart : Bool) → List Char → List Nat
  | .empty, _, _ => [0]
  | .chars _, _, [] => []
  | .chars set, _, c :: _ => if set.contains c then [1] else []
  | .start, atStart, _ => if atStart then [0] else []
  | .seq a b, atStart, cs =>
    ((a.lengths atStart cs).flatMap fun k =>
      (b.lengths (atStart && k == 0) (cs.drop k)).map (k + ·)).eraseDups
  | .alt a b, atStart, cs => (a.lengths atStart cs ++ b.lengths atStart cs).eraseDups
  | .plus a, atStart, cs =>
    ((a.lengths atStart cs).flatMap fun k =>
      if k = 0 then [0] else (rounds (a.lengths false) (cs.drop k)).map (k + ·)).eraseDups

/-- In the second round of `(b?(|a))+` the empty branch is preferred, and that ends the repetition. -/
example : (plus (.seq (optional (.chars (.single 'b'))) (.alt .empty (.chars (.single 'a'))))).lengths
    true "ba".toList = [1, 2, 0] := by
  decide +kernel

/-- Whether every match has to begin at the start of the text. -/
def isAnchored : Regex → Bool
  | .empty | .chars _ => false
  | .start => true
  | .seq a _ => a.isAnchored
  | .alt a b => a.isAnchored && b.isAnchored
  | .plus a => a.isAnchored

/-- The leftmost match at a place after the start, which is `skipped` characters in: the characters
before it and the characters it takes. -/
def findLater (r : Regex) (skipped : Nat) : List Char → Option (Nat × Nat)
  | [] => (r.lengths false []).head?.map (skipped, ·)
  | c :: cs =>
    match (r.lengths false (c :: cs)).head? with
    | some k => some (skipped, k)
    | none => findLater r (skipped + 1) cs

/-- The leftmost match: the characters before it and the characters it takes. -/
def find? (r : Regex) (cs : List Char) : Option (Nat × Nat) :=
  match (r.lengths true cs).head?, cs with
  | some k, _ => some (0, k)
  | none, [] => none
  | none, _ :: rest => if r.isAnchored then none else findLater r 1 rest

end Regex

end WikiMarkup
