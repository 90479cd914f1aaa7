import WikiMarkup.Proofs.Peg.Termination
import WikiMarkup.Proofs.Rules.Lexical

/-!
# The rules of the markup end

Bold and italics nest through rules of their own, so no rule of the markup leads to itself, by calls
at one place or otherwise. Many of the rules can match without consuming, at the end of the text if
nowhere else. That is no obstacle, neither for a repetition of such a rule nor for one inside
another.
-/

namespace WikiMarkup

open Peg

namespace Rule

theorem grammar_covers (e : MarkupExpr) : grammar.Covers e := fun r _ => mem_all r

theorem grammar_isClosed : grammar.IsClosed := fun r _ => grammar_covers (body r)

/-! ## At the end of the text -/

/-- Whatever is found at the end of the text consumed nothing. -/
theorem eq_nil_of_read_nil {e : MarkupExpr} {r : Reading Node} (h : e.read read [] = some r) :
    r.front = [] ∧ r.rest = [] :=
  List.append_eq_nil_iff.mp (exact_expr e h).text.symm

/-- A row of expressions is found there if each of them is. -/
theorem isSome_readEach_nil {es : List MarkupExpr} (h : ∀ e ∈ es, (e.read read []).isSome) :
    (Expr.readEach read es []).isSome := by
  induction es with
  | nil => rfl
  | cons e es ih =>
    obtain ⟨he, hes⟩ := List.forall_mem_cons.mp h
    obtain ⟨r, hr⟩ := Option.isSome_iff_exists.mp he
    rw [Expr.readEach, hr, Option.bind_some, (eq_nil_of_read_nil hr).2, Option.isSome_map]
    exact ih hes

/-- A rule that is found at the end of the text can match without consuming. -/
theorem canTakeNothing_of_isSome {r : Rule} (h : (r.read []).isSome) :
    grammar.CanTakeNothing (.rule r) := by
  obtain ⟨reading, hread⟩ := Option.isSome_iff_exists.mp h
  have hcut := exact_read r hread
  have hrun : r.run (.ofList []) = .ok ⟨some reading.found, []⟩ := by
    rw [run_eq, Cursor.ofList, hread]
    rfl
  refine ⟨_, .ofList [], reading.found, ⟨[], hrun⟩, ?_⟩
  rw [hcut.consumed_eq_zero_iff]
  exact (List.append_eq_nil_iff.mp hcut.text.symm).1

theorem isSome_read_eol_nil : (eol.read []).isSome := by
  rw [read_eol, lineEnd?_nil]
  rfl

theorem isSome_read_spacing (cs : List Char) : (spacing.read cs).isSome := by
  rw [read_eq]
  rfl

/-- A line may be empty, and then its end is all of it. -/
theorem isSome_read_paragraph_nil : (paragraph.read []).isSome := by
  rw [read_eq]
  simp only [body, Expr.read, Option.isSome_map]
  apply isSome_readEach_nil
  simp [Expr.read, isSome_read_eol_nil]

theorem isSome_read_block_nil : (block.read []).isSome := by
  rw [read_eq]
  simp only [body, Expr.read, Option.isSome_map]
  apply isSome_readEach_nil
  simp [Expr.read, Expr.readFirst_cons, Option.isSome_or, isSome_read_paragraph_nil]

theorem canTakeNothing_of_mem {r : Rule}
    (h : r ∈ [block, paragraph, spacing, eol, boldEnd, italicsEnd, nestedEnd]) :
    grammar.CanTakeNothing (.rule r) := by
  have hend (d : Delimiter) : (d.endRule.read []).isSome :=
    (isSome_read_endRule d []).mpr (.inr rfl)
  apply canTakeNothing_of_isSome
  simp only [List.mem_cons, List.not_mem_nil, or_false] at h
  rcases h with rfl | rfl | rfl | rfl | rfl | rfl | rfl
  · exact isSome_read_block_nil
  · exact isSome_read_paragraph_nil
  · exact isSome_read_spacing []
  · exact isSome_read_eol_nil
  · exact hend .star
  · exact hend .slash
  · exact (isSome_read_nestedEnd []).mpr (.inr rfl)

/-! ## Every application ends -/

/-- Applications end at every place of every text, for any grammar in which no rule leads to itself
by calls at one place. The grammar of the markup is one of these, although its rules for blocks,
paragraphs, blanks, line ends and the ends of spans can all match without consuming. -/
theorem ends_without_leftRecursion :
    (∀ {ρ ν ε : Type} (g : Grammar ρ ν ε), g.IsClosed → ¬g.LeftRecursive →
      ∀ e, g.Covers e → ∀ c, g.Ends e c) ∧
    (grammar.IsClosed ∧ ¬grammar.LeftRecursive ∧ ∀ r c, grammar.Ends (.rule r) c) ∧
    ∀ r ∈ [block, paragraph, spacing, eol, boldEnd, italicsEnd, nestedEnd],
      grammar.CanTakeNothing (.rule r) := by
  have hmarkup := grammar_ranked.not_leftRecursive
  refine ⟨fun g hclosed hrec e he c => ?general, ⟨grammar_isClosed, hmarkup, fun r c => ?markup⟩,
    fun r hr => canTakeNothing_of_mem hr⟩
  case general => exact Grammar.ends_of_not_leftRecursive hclosed hrec he c
  case markup =>
    exact Grammar.ends_of_not_leftRecursive grammar_isClosed hmarkup (grammar_covers _) c

end Rule

/-! ## A grammar that recurs -/

/-- Sums of digits with brackets, where blanks may stand before each term:

```text
Sum    <- Blanks Term ("+" Blanks Term)*
Term   <- [0-9] / Group
Group  <- "(" Sum ")"
Blanks <- (" "*)*
```

A sum leads to a sum behind a bracket only. -/
inductive SumRule where
  | sum
  | term
  | group
  | blanks
deriving DecidableEq, Repr

namespace SumRule

def body : SumRule → Expr SumRule Int Empty
  | .sum =>
    .sequence [.rule .blanks, .rule .term,
      .zeroOrMore (.sequence [.literal "+", .rule .blanks, .rule .term])]
  | .term => .firstOf [.pattern (.anchored (.chars (.range '0' '9'))), .rule .group]
  | .group => .sequence [.literal "(", .rule .sum, .literal ")"]
  | .blanks => .zeroOrMore (.zeroOrMore (.literal " "))

def grammar : Grammar SumRule Int Empty := ⟨[.sum, .term, .group, .blanks], body⟩

theorem grammar_covers (e : Expr SumRule Int Empty) : grammar.Covers e := by
  intro r _
  cases r <;> decide

theorem grammar_isClosed : grammar.IsClosed := fun r _ => grammar_covers (body r)

def rank : SumRule → Nat
  | .sum => 2
  | .term => 1
  | .group | .blanks => 0

/-- Only a group is known to consume something, by its form. -/
theorem grammar_not_leftRecursive : ¬grammar.LeftRecursive := by
  have hmarking : grammar.IsMarking (· != .group) := by
    intro r
    cases r <;> decide
  have hrank : ∀ r, ∀ inner ∈ (body r).heads (· != .group), inner.rank < r.rank := by
    intro r
    cases r <;> decide
  exact hmarking.not_leftRecursive hrank

end SumRule

theorem ends_without_leftRecursion_sum :
    SumRule.grammar.IsClosed ∧ ¬SumRule.grammar.LeftRecursive ∧
      SumRule.sum ∈ (SumRule.body .group).rules ∧
      SumRule.grammar.Ends (.sequence [.zeroOrMore (.rule .sum), .endOfText])
        (.ofString " (1+(2+3))+ 4") :=
  ⟨SumRule.grammar_isClosed, SumRule.grammar_not_leftRecursive, by decide,
    Rule.ends_without_leftRecursion.1 _ SumRule.grammar_isClosed
      SumRule.grammar_not_leftRecursive _ (SumRule.grammar_covers _) _⟩

end WikiMarkup
