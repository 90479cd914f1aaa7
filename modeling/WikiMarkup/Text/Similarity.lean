/-!
# Likeness of two texts

The likeness of Jaro: characters of the one text are paired with equal ones of the other that stand
nearby, each used once. The measure is the mean of three fractions, the paired part of either text
and the part of the pairs that stand in the same order; it lies between zero and one. It is computed
in binary numbers of 64 bits, in the order written here, as it is compared with sharp limits.
-/

namespace WikiMarkup.Text

/-- Mark the first unmarked place in the list that holds `c` and lies from `low` to below `high`;
places are counted from `i`. -/
def pairUp (c : Char) (low high : Nat) : Nat → List (Char × Bool) → Option (List (Char × Bool))
  | _, [] => none
  | i, (d, used) :: rest =>
    if low ≤ i ∧ i < high ∧ c = d ∧ used = false then some ((d, true) :: rest)
    else (pairUp c low high (i + 1) rest).map ((d, used) :: ·)

/-- The characters of the first list that find partners, in order, and the second list with the
partners marked. -/
def pairAll (range : Nat) : Nat → List Char → List (Char × Bool) →
    List Char × List (Char × Bool)
  | _, [], others => ([], others)
  | i, c :: cs, others =>
    match pairUp c (i - range) (i + range + 1) 0 others with
    | some others =>
      let (paired, others) := pairAll range (i + 1) cs others
      (c :: paired, others)
    | none => pairAll range (i + 1) cs others

def likeness (a b : String) : Float :=
  let a := a.toList
  let b := b.toList
  if a.isEmpty && b.isEmpty then 1.0
  else
    let range := max a.length b.length / 2 - 1
    let (left, marked) := pairAll range 0 a (b.map (·, false))
    let right := (marked.filter (·.2)).map (·.1)
    let swapped := ((left.zip right).filter fun (c, d) => c != d).length / 2
    let pairs := left.length
    if pairs = 0 then 0.0
    else
      (pairs.toFloat / a.length.toFloat + pairs.toFloat / b.length.toFloat
        + (pairs - swapped).toFloat / pairs.toFloat) / 3.0

/-- The candidate most like a text, if any is alike enough; of equally like ones the last. -/
def mostAlike? (limit : Float) (s : String) (candidates : List String) : Option String :=
  (candidates.foldl
    (fun best candidate =>
      let x := likeness s candidate
      match best with
      | some (y, _) => if limit < x && y ≤ x then some (x, candidate) else best
      | none => if limit < x then some (x, candidate) else none)
    none).map (·.2)

end WikiMarkup.Text
