import Mathlib.Data.Prod.Lex
import WikiMarkup.Cursor

/-!
# Positions in reading order

A position tells the line and the column of a place. The pairs are ordered by their lines, and by
their columns within a line, and this is the order of the places in the text: a move over one
character starts the next line or the next column, and every later place is reached by such moves.
So no two places of a text have the same position.
-/

namespace WikiMarkup.Cursor

variable {c d : Cursor} {ch : Char} {front rest : List Char} {text : String} {i j : Nat}

/-- Line and column of a place; the line decides which of two positions comes first. -/
def position (c : Cursor) : Nat ×ₗ Nat := toLex (c.line, c.column)

theorem position_lt_iff : c.position < d.position ↔
    c.line < d.line ∨ c.line = d.line ∧ c.column < d.column :=
  Prod.Lex.toLex_lt_toLex

/-! ## A move over one character -/

/-- The place behind a character that was ahead. -/
def past (c : Cursor) (ch : Char) (rest : List Char) : Cursor := ⟨ch :: c.behind, rest⟩

theorem advance_of_rest_eq_cons (h : c.rest = ch :: rest) :
    c.advance ch.utf8Size = .ok (c.past ch rest) := by
  have hsplit : c.rest = [ch] ++ rest := h
  have hfront : Text.byteSize [ch] = ch.utf8Size := by simp
  rw [← hfront]
  exact advance_of_rest_eq hsplit

theorem line_past_lineFeed : (c.past '\n' rest).line = c.line + 1 := by
  show List.count '\n' ('\n' :: c.behind) + 1 = _
  rw [List.count_cons_self, line]

theorem column_past_lineFeed : (c.past '\n' rest).column = 1 := rfl

theorem line_past (h : ch ≠ '\n') : (c.past ch rest).line = c.line := by
  show List.count '\n' (ch :: c.behind) + 1 = _
  rw [List.count_cons_of_ne h, line]

theorem column_past (h : ch ≠ '\n') : (c.past ch rest).column = c.column + 1 := by
  show ((ch :: c.behind).takeWhile (· != '\n')).length + 1 = _
  rw [List.takeWhile_cons_of_pos (by simpa using h), List.length_cons, column]

/-- Behind a character the position is a later one. -/
theorem position_lt_past (c : Cursor) (ch : Char) (rest : List Char) :
    c.position < (c.past ch rest).position := by
  rw [position_lt_iff]
  by_cases h : ch = '\n'
  · subst h
    left
    rw [line_past_lineFeed]
    omega
  · right
    rw [line_past h, column_past h]
    omega

/-! ## Moves over several characters -/

/-- A move over at least one character leads to a later position. -/
theorem position_lt_of_front (hne : front ≠ []) (hrest : c.rest = front ++ d.rest)
    (hbehind : d.behind = front.reverse ++ c.behind) : c.position < d.position := by
  induction front generalizing c with
  | nil => exact absurd rfl hne
  | cons ch front ih =>
    have hfirst := position_lt_past c ch (front ++ d.rest)
    by_cases hfront : front = []
    · subst hfront
      have hd : d = c.past ch ([] ++ d.rest) := by
        cases d
        simp_all [past]
      exact hd ▸ hfirst
    · refine lt_trans hfirst (ih hfront rfl ?_)
      simpa [past] using hbehind

/-- Of two places in a text the later one is reached from the earlier one. -/
theorem exists_front_of_lt (hij : i < j) (hc : at? text i = .ok c) (hd : at? text j = .ok d) :
    ∃ front, front ≠ [] ∧ c.rest = front ++ d.rest ∧ d.behind = front.reverse ++ c.behind := by
  obtain ⟨before, hbefore, hcbehind, rfl⟩ := exists_front_of_advance hc
  obtain ⟨upto, hupto, hdbehind, rfl⟩ := exists_front_of_advance hd
  have hsplit : before ++ c.rest = upto ++ d.rest := hbefore.symm.trans hupto
  rcases List.append_eq_append_iff.mp hsplit with ⟨front, rfl, hrest⟩ | ⟨back, rfl, -⟩
  · refine ⟨front, ?_, hrest, ?_⟩
    · rintro rfl
      simp at hij
    · simp [hcbehind, hdbehind]
  · simp only [Text.byteSize_append] at hij
    omega

/-- Positions tell the places of a text apart, in their order: the start is at line 1 and column 1,
a line feed leads to the first column of the next line, any other character, whatever its size, to
the next column, and of two places the one that comes first has the smaller position. -/
theorem position_faithful (text : String) :
    (∃ c, at? text 0 = .ok c ∧ c.line = 1 ∧ c.column = 1) ∧
    (∀ i c ch rest, at? text i = .ok c → c.rest = ch :: rest →
      ∃ d, c.advance ch.utf8Size = .ok d ∧ at? text (i + ch.utf8Size) = .ok d ∧
        (ch = '\n' → d.line = c.line + 1 ∧ d.column = 1) ∧
        (ch ≠ '\n' → d.line = c.line ∧ d.column = c.column + 1)) ∧
    (∀ i j c d, at? text i = .ok c → at? text j = .ok d → i < j → c.position < d.position) ∧
    (∀ i j c d, at? text i = .ok c → at? text j = .ok d → c.position = d.position → i = j) := by
  have hlt : ∀ i j c d, at? text i = .ok c → at? text j = .ok d → i < j →
      c.position < d.position := by
    intro i j c d hc hd hij
    obtain ⟨front, hne, hrest, hbehind⟩ := exists_front_of_lt hij hc hd
    exact position_lt_of_front hne hrest hbehind
  refine ⟨⟨ofString text, advance_zero _, rfl, rfl⟩, ?_, hlt, ?_⟩
  · intro i c ch rest hc hrest
    have hmove := advance_of_rest_eq_cons hrest
    refine ⟨c.past ch rest, hmove, advance_trans hc hmove, ?_, ?_⟩
    · rintro rfl
      exact ⟨line_past_lineFeed, column_past_lineFeed⟩
    · intro h
      exact ⟨line_past h, column_past h⟩
  · intro i j c d hc hd hsame
    rcases Nat.lt_trichotomy i j with h | h | h
    · exact absurd hsame (ne_of_lt (hlt i j c d hc hd h))
    · exact h
    · exact absurd hsame.symm (ne_of_lt (hlt j i d c hd hc h))

/-- A character of two bytes is one column, and a carriage return is one too. -/
theorem position_faithful_secondLine : ∃ c d,
    at? "a\r\né!" 3 = .ok c ∧ c.line = 2 ∧ c.column = 1 ∧
    at? "a\r\né!" 5 = .ok d ∧ d.line = 2 ∧ d.column = 2 ∧ c.position < d.position := by
  obtain ⟨-, hstep, hlt, -⟩ := position_faithful "a\r\né!"
  have hplace : at? "a\r\né!" 3 = .ok ⟨['\n', '\r', 'a'], ['é', '!']⟩ := rfl
  obtain ⟨d, -, hd, -, hother⟩ := hstep 3 _ 'é' ['!'] hplace rfl
  obtain ⟨hline, hcolumn⟩ := hother (by decide)
  exact ⟨_, d, hplace, rfl, rfl, hd, hline, hcolumn, hlt 3 5 _ d hplace hd (by decide)⟩

end WikiMarkup.Cursor
