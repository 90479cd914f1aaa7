import WikiMarkup.Cli.Arguments

/-!
# Kinds of arguments

As long as options have not ended, an argument ends them, is the flag, names an option that takes a
value, is no option at all, or is refused. Its kind tells how it is read.
-/

namespace WikiMarkup.Cli

/-! ## Options and plain arguments -/

/-- The argument is no option: it is a hyphen, or does not begin with one. -/
def IsPlain (argument : String) : Prop := argument = "-" ∨ argument.toList.head? ≠ some '-'

variable {g : Given} {a : String} {p : Parameter} {own : Option String} {name : String} {c : Char}
variable {rest : List Char}

/-! ## Kinds of arguments -/

/-- What an argument is, as long as options have not ended. -/
inductive Kind where
  | ending
  | plain
  | flag
  | option (p : Parameter) (own : Option String)
  | refused
deriving DecidableEq

end WikiMarkup.Cli
