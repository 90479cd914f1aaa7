import WikiMarkup.Proofs.Cli.Kinds

/-!
# What arguments ask for

Arguments give parameters values, one after the other: an option with its value, the flag, or the
path. At the end `--` may stand, and behind it a path that looks like an option. A request is asked
for by arguments that give each parameter at most once. These are the arguments that are read
without stopping, and what is read is what they give.

An option whose value comes in the next argument is settled late, so the readings of an argument are
stated with the parameters that are given so far, settled or not.
-/

namespace WikiMarkup.Cli

/-! ## How parameters are given -/

/-- No parameter is given twice. -/
def Distinct (given : List (Parameter × String)) : Prop := (given.map (·.1)).Nodup

variable {g g₁ : Given} {a v : String} {p : Parameter} {own : Option String} {args : List String}
variable {given s : List (Parameter × String)} {x : Parameter × String} {arguments : List String}
variable {r : Request}

/-! ## What is given so far -/

theorem Distinct.of_append {later : List (Parameter × String)} (h : Distinct (given ++ later)) :
    Distinct given := by
  rw [Distinct, List.map_append] at h
  exact (List.nodup_append.mp h).1

namespace Given

/-- No value is missing: what is pending is an option with its value. -/
structure Ready (g : Given) : Prop where
  settled : Distinct g.settled
  pending : ∀ p own, g.pending = some (p, own) → p ≠ .path ∧ own.isSome

section Awaiting

variable (hpending : g.pending = some (p, none))
include hpending

end Awaiting

end Given

/-! ## Arguments that give parameters -/

namespace Given

end Given

/-! ## Requests -/

end WikiMarkup.Cli
