import Mathlib.Algebra.GroupWithZero.Nat
import WikiMarkup.Peg.Expr

/-!
# Reading the text ahead

An expression decides by the text ahead alone: where a cursor came from never matters, and no
expression asks for a place off the text. This module has a second evaluation that makes this plain.
`Expr.read` takes the characters ahead and answers with the match, the characters it consumed and
those it left; it has no cursors, no byte offsets and no ways to stop.

`Expr.exact_read` is the invariant of all readings: what was consumed and what is left make up the
text ahead, and the match counts the bytes of the former. That runs come to the same as readings is
shown from it elsewhere.
-/

namespace WikiMarkup.Peg

variable {ρ ν ε : Type}

/-- A match, the characters it consumed and the characters after them. -/
structure Reading (ν : Type) where
  found : Match ν
  front : List Char
  rest : List Char

/-- A reader takes the text ahead and finds a match at its head, or does not. -/
abbrev Reader (ν : Type) := List Char → Option (Reading ν)

/-- Several matches in a row, the characters they consumed and the characters after them. -/
structure Stretch (ν : Type) where
  parts : List (Match ν)
  front : List Char
  rest : List Char

namespace Reading

/-- A match of the characters in front, with no node and no parts. -/
def leaf (front rest : List Char) : Reading ν :=
  ⟨.leaf (String.ofList front) (Text.byteSize front), front, rest⟩

/-- The match that spans a stretch. -/
def spanning (s : Stretch ν) : Reading ν :=
  ⟨⟨String.ofList s.front, Text.byteSize s.front, none, s.parts⟩, s.front, s.rest⟩

end Reading

namespace Stretch

def empty (cs : List Char) : Stretch ν := ⟨[], [], cs⟩

/-- Put a reading before a stretch that starts where the reading ends. -/
def cons (r : Reading ν) (s : Stretch ν) : Stretch ν :=
  ⟨r.found :: s.parts, r.front ++ s.front, s.rest⟩

end Stretch

/-- The rounds of a repetition, up to the first that fails or consumes nothing. -/
def readRounds (s : Reader ν) (cs : List Char) : Stretch ν :=
  match s cs with
  | none => .empty cs
  | some r => if r.rest.length < cs.length then .cons r (readRounds s r.rest) else .empty cs
termination_by cs.length

/-- One or more rounds; a first round that consumes nothing is the only one. -/
def readOneOrMore (s : Reader ν) : Reader ν := fun cs =>
  (s cs).map fun r =>
    if r.front = [] then ⟨⟨"", 0, none, [r.found]⟩, [], cs⟩
    else .spanning (.cons r (readRounds s r.rest))

mutual

/-- Read with an expression, given a reader for each rule. -/
def Expr.read (env : ρ → Reader ν) : Expr ρ ν ε → Reader ν
  | .any, cs =>
    match cs with
    | [] => none
    | c :: rest => some (.leaf [c] rest)
  | .endOfText, cs => if cs.isEmpty then some ⟨.empty, [], cs⟩ else none
  | .literal text, cs =>
    if text.toList.isPrefixOf cs then some (.leaf text.toList (cs.drop text.toList.length))
    else none
  | .pattern regex, cs =>
    match regex.find? cs with
    | some (0, length) => some (.leaf (cs.take length) (cs.drop length))
    | _ => none
  | .notAhead body, cs =>
    match body.read env cs with
    | some _ => none
    | none => some ⟨.empty, [], cs⟩
  | .ahead body, cs => (body.read env cs).map fun r => ⟨{ r.found with consumed := 0 }, [], cs⟩
  | .sequence elements, cs => (Expr.readEach env elements cs).map .spanning
  | .firstOf alternatives, cs => Expr.readFirst env alternatives cs
  | .zeroOrMore body, cs => some (.spanning (readRounds (body.read env) cs))
  | .oneOrMore body, cs => readOneOrMore (body.read env) cs
  | .onMatch body transform, cs =>
    (body.read env cs).map fun r => { r with found := (r.found.transformed transform).1 }
  | .rule name, cs => env name cs

/-- Read with expressions one after another. -/
def Expr.readEach (env : ρ → Reader ν) : List (Expr ρ ν ε) → List Char → Option (Stretch ν)
  | [], cs => some (.empty cs)
  | e :: es, cs => (e.read env cs).bind fun r => (Expr.readEach env es r.rest).map (.cons r)

/-- Read with the first of several expressions that matches. -/
def Expr.readFirst (env : ρ → Reader ν) : List (Expr ρ ν ε) → Reader ν
  | [], _ => none
  | e :: es, cs =>
    match e.read env cs with
    | some r => some r
    | none => Expr.readFirst env es cs

end

theorem Expr.readFirst_nil (env : ρ → Reader ν) (cs : List Char) :
    Expr.readFirst env ([] : List (Expr ρ ν ε)) cs = none := rfl

theorem Expr.readFirst_cons (env : ρ → Reader ν) (e : Expr ρ ν ε) (es : List (Expr ρ ν ε))
    (cs : List Char) :
    Expr.readFirst env (e :: es) cs = (e.read env cs).or (Expr.readFirst env es cs) := by
  rw [Expr.readFirst]
  cases e.read env cs <;> rfl

/-! ## Readings are cuts of the text -/

/-- What is consumed and what is left make up the text ahead, and the match counts the bytes
consumed. -/
structure Reading.IsCut (r : Reading ν) (cs : List Char) : Prop where
  text : cs = r.front ++ r.rest
  consumed : r.found.consumed = Text.byteSize r.front

/-- Everything the reader finds is a cut of the text that it was given. -/
def Reader.Exact (s : Reader ν) : Prop := ∀ ⦃cs r⦄, s cs = some r → r.IsCut cs

/-- A stretch is a cut of the text, and its parts count the bytes consumed. -/
structure Stretch.IsCut (s : Stretch ν) (cs : List Char) : Prop where
  text : cs = s.front ++ s.rest
  consumed : (s.parts.map Match.consumed).sum = Text.byteSize s.front

namespace Stretch

theorem isCut_empty (cs : List Char) : (empty cs : Stretch ν).IsCut cs := ⟨rfl, rfl⟩

theorem IsCut.cons {r : Reading ν} {s : Stretch ν} {cs : List Char} (hr : r.IsCut cs)
    (hs : s.IsCut r.rest) : (Stretch.cons r s).IsCut cs := by
  refine ⟨?_, ?_⟩
  · rw [Stretch.cons, List.append_assoc, ← hs.text]
    exact hr.text
  · simp [Stretch.cons, hr.consumed, hs.consumed]

theorem IsCut.front_eq {s : Stretch ν} {front : List Char} (h : s.IsCut (front ++ s.rest)) :
    s.front = front := (List.append_cancel_right h.text).symm

theorem IsCut.spanning {s : Stretch ν} {cs : List Char} (h : s.IsCut cs) :
    (Reading.spanning s).IsCut cs := ⟨h.text, rfl⟩

end Stretch

namespace Reading

theorem isCut_leaf (front rest : List Char) : (leaf front rest : Reading ν).IsCut (front ++ rest) :=
  ⟨rfl, rfl⟩

/-- A reading consumes something exactly if it leaves less text. -/
theorem IsCut.length_lt_iff {r : Reading ν} {cs : List Char} (h : r.IsCut cs) :
    r.rest.length < cs.length ↔ r.front ≠ [] := by
  rw [h.text, List.length_append, ← List.length_pos_iff]
  omega

/-- What is left tells what was consumed. -/
theorem IsCut.front_eq {r : Reading ν} {front : List Char} (h : r.IsCut (front ++ r.rest)) :
    r.front = front := (List.append_cancel_right h.text).symm

theorem IsCut.drop_front {r : Reading ν} {cs : List Char} (h : r.IsCut cs) :
    cs.drop r.front.length = r.rest := by
  rw [h.text, List.drop_left]

theorem IsCut.take_front {r : Reading ν} {cs : List Char} (h : r.IsCut cs) :
    cs.take r.front.length = r.front := by
  rw [h.text, List.take_left]

theorem IsCut.consumed_eq_zero_iff {r : Reading ν} {cs : List Char} (h : r.IsCut cs) :
    r.found.consumed = 0 ↔ r.front = [] := by
  rw [h.consumed, Text.byteSize_eq_zero]

end Reading

theorem readRounds_isCut {s : Reader ν} (hs : s.Exact) (cs : List Char) :
    (readRounds s cs).IsCut cs := by
  fun_induction readRounds s cs with
  | case1 cs _ => exact Stretch.isCut_empty cs
  | case2 cs r hr _ ih => exact Stretch.IsCut.cons (hs hr) ih
  | case3 cs _ _ _ => exact Stretch.isCut_empty cs

theorem Reader.Exact.oneOrMore {s : Reader ν} (hs : s.Exact) : Reader.Exact (readOneOrMore s) := by
  intro cs r h
  obtain ⟨first, hfirst, rfl⟩ := Option.map_eq_some_iff.mp h
  split
  · exact ⟨rfl, rfl⟩
  · exact (Stretch.IsCut.cons (hs hfirst) (readRounds_isCut hs first.rest)).spanning

variable {readers : ρ → Reader ν}

mutual

theorem Expr.exact_read (hr : ∀ name, (readers name).Exact) :
    ∀ e : Expr ρ ν ε, Reader.Exact (e.read readers)
  | .any => by
    intro cs r h
    cases cs with
    | nil => cases h
    | cons c rest =>
      cases h
      exact Reading.isCut_leaf [c] rest
  | .endOfText => by
    intro cs r h
    rw [Expr.read, Option.ite_none_right_eq_some] at h
    cases h.2
    exact ⟨rfl, rfl⟩
  | .literal text => by
    intro cs r h
    rw [Expr.read, Option.ite_none_right_eq_some] at h
    obtain ⟨rest, rfl⟩ := List.isPrefixOf_iff_prefix.mp h.1
    cases h.2
    simpa using Reading.isCut_leaf text.toList rest
  | .pattern regex => by
    intro cs r h
    rw [Expr.read] at h
    split at h
    · cases h
      exact ⟨(List.take_append_drop _ cs).symm, rfl⟩
    · cases h
  | .notAhead body => by
    intro cs r h
    rw [Expr.read] at h
    split at h
    · cases h
    · cases h
      exact ⟨rfl, rfl⟩
  | .ahead body => by
    intro cs r h
    obtain ⟨_, _, rfl⟩ := Option.map_eq_some_iff.mp h
    exact ⟨rfl, rfl⟩
  | .sequence elements => by
    intro cs r h
    obtain ⟨s, hs, rfl⟩ := Option.map_eq_some_iff.mp h
    exact (Expr.isCut_readEach hr elements hs).spanning
  | .firstOf alternatives => Expr.exact_readFirst hr alternatives
  | .zeroOrMore body => by
    intro cs r h
    cases h
    exact (readRounds_isCut (Expr.exact_read hr body) cs).spanning
  | .oneOrMore body => (Expr.exact_read hr body).oneOrMore
  | .onMatch body transform => by
    intro cs r h
    obtain ⟨inner, hinner, rfl⟩ := Option.map_eq_some_iff.mp h
    have hcut := Expr.exact_read hr body hinner
    exact ⟨hcut.text, hcut.consumed⟩
  | .rule name => hr name

theorem Expr.isCut_readEach (hr : ∀ name, (readers name).Exact) :
    ∀ (es : List (Expr ρ ν ε)) {cs : List Char} {s : Stretch ν},
      Expr.readEach readers es cs = some s → s.IsCut cs
  | [], cs, s, h => by
    cases h
    exact Stretch.isCut_empty cs
  | e :: es, cs, s, h => by
    obtain ⟨r, hfirst, hrest⟩ := Option.bind_eq_some_iff.mp h
    obtain ⟨tail, htail, rfl⟩ := Option.map_eq_some_iff.mp hrest
    exact Stretch.IsCut.cons (Expr.exact_read hr e hfirst) (Expr.isCut_readEach hr es htail)

theorem Expr.exact_readFirst (hr : ∀ name, (readers name).Exact) :
    ∀ es : List (Expr ρ ν ε), Reader.Exact (Expr.readFirst readers es)
  | [] => by
    intro cs r h
    cases h
  | e :: es => by
    intro cs r h
    rw [Expr.readFirst] at h
    split at h
    · cases h
      exact Expr.exact_read hr e ‹_›
    · exact Expr.exact_readFirst hr es h

end

end WikiMarkup.Peg
