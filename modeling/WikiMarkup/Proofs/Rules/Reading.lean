import WikiMarkup.Rules.Markup
import WikiMarkup.Proofs.Peg.Agreement
import WikiMarkup.Proofs.Peg.Rounds

/-!
# Reading with the rules of the markup

The rules of the markup do not recur: bold and italics nest through rules of their own, one level
deep. So every rule has a reader, `Rule.read`, with an equation that unfolds it, and applying a
rule at a cursor is reading the text ahead.
-/

namespace WikiMarkup

open Peg

namespace Rule

/-- A rule refers to rules of lower rank only. -/
def rank : Rule → Nat
  | .document => 12
  | .block => 11
  | .header | .paragraph => 10
  | .inlineContent => 9
  | .bold | .italics => 8
  | .boldContent | .italicsContent => 7
  | .boldWithoutItalics | .italicsWithoutBold => 6
  | .boldWithoutItalicsContent | .italicsWithoutBoldContent => 5
  | .text => 4
  | .nestedEnd | .link => 3
  | .boldEnd | .italicsEnd | .capWord | .headerIntro => 2
  | .spacing => 1
  | .boldDelim | .italicsDelim | .initialCap | .lowercase | .h1 | .h2 | .h3 | .whitespace | .eol =>
    0

theorem grammar_ranked : grammar.Ranked rank where
  rank_lt name := by cases name <;> decide

/-- What the rule finds at the head of a text. Only `read_eq` unfolds it. -/
@[irreducible]
def read : Rule → Reader Node := grammar_ranked.read

theorem exact_read (r : Rule) : r.read.Exact := by
  unfold read
  exact grammar_ranked.exact_read r

theorem read_eq (r : Rule) : r.read = (body r).read read := by
  unfold read
  exact grammar_ranked.read_eq r

theorem exact_expr (e : MarkupExpr) : Reader.Exact (e.read read) := Expr.exact_read exact_read e

theorem rank_lt_depth (r : Rule) (c : Cursor) : r.rank < grammar.depth c := by
  have hrank : r.rank < all.length := by cases r <;> decide
  exact Nat.lt_of_lt_of_le hrank (Nat.le_mul_of_pos_left _ (Nat.succ_pos _))

theorem grammar_run_eq (e : MarkupExpr) (c : Cursor) :
    grammar.run e c = .ok ⟨(e.read read c.rest).map Reading.found, []⟩ := by
  obtain ⟨events, h⟩ := grammar_ranked.run_agrees e (fun r _ => rank_lt_depth r c) c
  unfold read
  cases events with
  | nil => exact h
  | cons event _ => exact event.elim

/-- Applying a rule never stops, and finds what its reader finds. -/
theorem run_eq (r : Rule) (c : Cursor) :
    r.run c = .ok ⟨(r.read c.rest).map Reading.found, []⟩ := grammar_run_eq (.rule r) c

theorem match?_eq (e : MarkupExpr) (c : Cursor) :
    match? e c = (e.read read c.rest).map Reading.found := by
  rw [match?, grammar_run_eq]

end Rule

end WikiMarkup
