import WikiMarkup.Text.Utf8

/-!
# Cursors

A cursor is a place in a text. It holds the characters behind it, the nearest first, and those
ahead of it, so that a place inside a character cannot be written down. Places are named from
outside by byte offsets; asking for one that lies past the end or inside a character is a fault.
-/

namespace WikiMarkup

/-- A place in a text: what lies behind it, nearest first, and what lies ahead. -/
structure Cursor where
  behind : List Char
  rest : List Char
deriving DecidableEq, Repr

namespace Cursor

/-- A request for a place or a stretch of text that does not exist. -/
inductive Fault where
  /-- No character starts at byte `index` of a text of `size` bytes, and it does not end there. -/
  | offBoundary (index size : Nat)
  /-- The stretch reaches past the end of the text or ends inside a character. -/
  | badSlice
deriving DecidableEq, Repr

/-- The start of a text. -/
def ofList (cs : List Char) : Cursor := ⟨[], cs⟩

/-- The start of a text. -/
def ofString (s : String) : Cursor := ofList s.toList

/-- The characters of the whole text. -/
def chars (c : Cursor) : List Char := c.behind.reverseAux c.rest

def text (c : Cursor) : String := String.ofList c.chars

/-- Byte offset of the place. -/
def index (c : Cursor) : Nat := Text.byteSize c.behind

/-- Bytes of the whole text. -/
def size (c : Cursor) : Nat := c.index + Text.byteSize c.rest

def isAtEnd (c : Cursor) : Bool := c.rest.isEmpty

/-- The place `n` bytes further on. -/
def advance (c : Cursor) (n : Nat) : Except Fault Cursor :=
  match Text.splitBytes c.behind c.rest n with
  | some (behind, rest) => .ok ⟨behind, rest⟩
  | none => .error (.offBoundary (c.index + n) c.size)

/-- The place at byte `index` of a text. -/
def at? (text : String) (index : Nat) : Except Fault Cursor :=
  (ofString text).advance index

/-- The `n` bytes ahead. -/
def slice (c : Cursor) (n : Nat) : Except Fault String :=
  match Text.splitBytes [] c.rest n with
  | some (taken, _) => .ok (String.ofList taken.reverse)
  | none => .error .badSlice

theorem advance_eq_ok {c c' : Cursor} {n : Nat} (h : c.advance n = .ok c') :
    Text.splitBytes c.behind c.rest n = some (c'.behind, c'.rest) := by
  unfold advance at h
  split at h
  · cases h; assumption
  · cases h

/-- Every step of at least one byte leaves less ahead. -/
theorem length_rest_lt_of_advance {c c' : Cursor} {n : Nat} (h : c.advance n = .ok c')
    (hn : 0 < n) : c'.rest.length < c.rest.length :=
  Text.length_lt_of_splitBytes (advance_eq_ok h) hn

theorem advance_of_rest_eq {c : Cursor} {front rest : List Char} (h : c.rest = front ++ rest) :
    c.advance (Text.byteSize front) = .ok ⟨front.reverse ++ c.behind, rest⟩ := by
  rw [advance, h, Text.splitBytes_append]

theorem slice_of_rest_eq {c : Cursor} {front rest : List Char} (h : c.rest = front ++ rest) :
    c.slice (Text.byteSize front) = .ok (String.ofList front) := by
  rw [slice, h, Text.splitBytes_append]
  simp

section Moves

variable {c c' c'' : Cursor} {i j : Nat}

theorem exists_front_of_advance (h : c.advance i = .ok c') : ∃ front, c.rest = front ++ c'.rest ∧
    c'.behind = front.reverse ++ c.behind ∧ Text.byteSize front = i :=
  Text.splitBytes_eq_some (advance_eq_ok h)

@[simp] theorem advance_zero (c : Cursor) : c.advance 0 = .ok c := by
  rw [advance, Text.splitBytes_zero]

theorem advance_trans (h : c.advance i = .ok c') (h' : c'.advance j = .ok c'') :
    c.advance (i + j) = .ok c'' := by
  obtain ⟨front, hrest, hbehind, rfl⟩ := exists_front_of_advance h
  obtain ⟨front', hrest', hbehind', rfl⟩ := exists_front_of_advance h'
  rw [hrest', ← List.append_assoc] at hrest
  rw [← Text.byteSize_append, advance_of_rest_eq hrest, List.reverse_append, List.append_assoc,
    ← hbehind, ← hbehind']

/-- Up to any place ahead the text may be cut out. -/
theorem exists_slice_of_advance (h : c.advance i = .ok c') : ∃ s, c.slice i = .ok s := by
  obtain ⟨front, hrest, -, rfl⟩ := exists_front_of_advance h
  exact ⟨_, slice_of_rest_eq hrest⟩

/-- What is cut out stands ahead and has the bytes that were asked for. -/
theorem eq_of_slice {s : String} (h : c.slice i = .ok s) :
    s.toList <+: c.rest ∧ s.utf8ByteSize = i := by
  unfold slice at h
  split at h
  · next taken rest hcut =>
    obtain ⟨front, hrest, htaken, rfl⟩ := Text.splitBytes_eq_some hcut
    cases h
    rw [htaken, List.append_nil, List.reverse_reverse, String.toList_ofList,
      Text.utf8ByteSize_ofList]
    exact ⟨⟨rest, hrest.symm⟩, rfl⟩
  · cases h

end Moves

/-! ## Positions for readers -/

/-- Line of the place, counted from 1; a line ends with its line feed. -/
def line (c : Cursor) : Nat := c.behind.count '\n' + 1

/-- Column of the place in characters, counted from 1. -/
def column (c : Cursor) : Nat := (c.behind.takeWhile (· != '\n')).length + 1

end Cursor

/-- The wording of a fault; a slice outside the text has none that is fixed. -/
def Cursor.Fault.message? : Cursor.Fault → Option String
  | .offBoundary index size =>
    some s!"cursor index {index} is not a char boundary of a {size} byte text"
  | .badSlice => none

end WikiMarkup
