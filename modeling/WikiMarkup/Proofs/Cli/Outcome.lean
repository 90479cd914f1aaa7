import Mathlib
import WikiMarkup.Proofs.Cli.Arguments
import WikiMarkup.Proofs.Cli.Needs
import WikiMarkup.Proofs.Format.Ending

/-!
# What a run leaves behind

A run that is asked for a page has all that it needs, and the output is the page in the format that
is asked for, or it fails with no output and with the report of the first thing that it lacks. Log
lines go before the report, and which of them are shown is all that the filter decides.
-/

namespace WikiMarkup.Cli

open Format

/-! ## Line feeds at the end -/

variable {w : Host Id} {r : Request} {o : Obstacle} {s : Settings} {markup : String} {page : Node}
variable {filter : LogFilter} {arguments : List String} {name : String} {path : Option String}

/-! ## Runs -/

end WikiMarkup.Cli
