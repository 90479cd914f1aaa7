import WikiMarkup.Decimal.Integer

/-!
# Paths to settings

A path is a name followed by steps into what it names: `.name` into a table and `[index]` into a
list, where a negative index counts from the end. Names consist of letters, digits, hyphens,
underscores and spaces. Case does not matter, so all letters of a path are made small.
-/

namespace WikiMarkup.Settings

inductive Step where
  | key (name : String)
  | item (index : Int)
deriving DecidableEq, Repr

/-- A path; its first step is the key of an entry at the root. -/
structure Path where
  first : String
  rest : List Step
deriving DecidableEq, Repr

namespace Path

def isNameChar (c : Char) : Bool := c.isAlphanum || c == '_' || c == '-' || c == ' '

/-- A name at the head of a text, and the text behind it. -/
def readName (cs : List Char) : Option (String × List Char) :=
  match cs.takeWhile isNameChar with
  | [] => none
  | name => some ((String.ofList name).toLower, cs.drop name.length)

theorem length_lt_of_readName {cs rest : List Char} {name : String}
    (h : readName cs = some (name, rest)) : rest.length < cs.length := by
  rw [readName] at h
  split at h
  · contradiction
  · rename_i name hne
    have hle : (cs.takeWhile isNameChar).length ≤ cs.length := by
      have := congrArg List.length (List.takeWhile_append_dropWhile (p := isNameChar) (l := cs))
      rw [List.length_append] at this
      omega
    have hpos : 0 < (cs.takeWhile isNameChar).length := List.length_pos_iff.mpr hne
    simp only [Option.some.injEq, Prod.mk.injEq] at h
    rw [← h.2, List.length_drop]
    omega

/-- The index between brackets; blanks may stand about it. -/
def indexOf? (cs : List Char) : Option Int :=
  let cs := cs.dropWhile fun c => c == ' ' || c == '\t'
  let cs := (cs.reverse.dropWhile fun c => c == ' ' || c == '\t').reverse
  if cs.head? = some '+' then none else (Decimal.intOfDigits? 10 cs).filter (Decimal.inSigned 64)

/-- A step at the head of a text, and the text behind it. -/
def readStep : List Char → Option (Step × List Char)
  | '.' :: cs => (readName cs).map fun (name, rest) => (.key name, rest)
  | '[' :: cs =>
    match cs.dropWhile (· != ']') with
    | ']' :: rest => (indexOf? (cs.takeWhile (· != ']'))).map fun i => (.item i, rest)
    | _ => none
  | _ => none

theorem length_lt_of_readStep {cs rest : List Char} {step : Step}
    (h : readStep cs = some (step, rest)) : rest.length < cs.length := by
  rw [readStep.eq_def] at h
  split at h
  · obtain ⟨⟨name, after⟩, hname, heq⟩ := Option.map_eq_some_iff.mp h
    have := length_lt_of_readName hname
    simp only [Prod.mk.injEq] at heq
    rw [← heq.2, List.length_cons]
    omega
  · rename_i cs
    split at h
    · rename_i after hafter
      obtain ⟨index, _, heq⟩ := Option.map_eq_some_iff.mp h
      have hle := (List.dropWhile_suffix (· != ']') (l := cs)).length_le
      rw [hafter, List.length_cons] at hle
      simp only [Prod.mk.injEq] at heq
      rw [← heq.2, List.length_cons]
      omega
    · contradiction
  · contradiction

/-- The steps of a text that consists of nothing but steps. -/
def readSteps : List Char → Option (List Step)
  | [] => some []
  | c :: cs =>
    match _h : readStep (c :: cs) with
    | some (step, rest) => (readSteps rest).map (step :: ·)
    | none => none
termination_by cs => cs.length
decreasing_by exact length_lt_of_readStep _h

/-- The path that a text writes. -/
def ofString? (text : String) : Option Path :=
  match readName text.toList with
  | some (first, cs) => (readSteps cs).map fun rest => ⟨first, rest⟩
  | none => none

end Path

end WikiMarkup.Settings
