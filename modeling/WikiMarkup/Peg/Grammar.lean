import WikiMarkup.Peg.Expr

/-!
# Grammars

A grammar is a finite list of rules with an expression for each. Rules may refer to one another and
to themselves; applying a rule `n` levels deep applies its expression with the rules inside it
`n - 1` levels deep. `Grammar.depth` is a bound that computes from the text ahead: between two
places at which something is consumed no rule has to be entered twice, unless it calls itself
without consuming, which no bound would help.
-/

namespace WikiMarkup.Peg

variable {ρ ν ε : Type}

structure Grammar (ρ ν ε : Type) where
  rules : List ρ
  body : ρ → Expr ρ ν ε

namespace Grammar

/-- The parser of each rule, for rules nested at most `depth` levels deep. -/
def parser (g : Grammar ρ ν ε) : (depth : Nat) → ρ → Parser ν ε
  | 0, _ => fun _ => .error .tooDeep
  | depth + 1, name => (g.body name).run (g.parser depth)

/-- How deeply rules may be nested from this place on. -/
def depth (g : Grammar ρ ν ε) (c : Cursor) : Nat := (c.rest.length + 1) * g.rules.length

/-- Apply an expression over the rules of the grammar. -/
def run (g : Grammar ρ ν ε) (e : Expr ρ ν ε) : Parser ν ε := fun c =>
  e.run (g.parser (g.depth c)) c

end Grammar

end WikiMarkup.Peg
