import WikiMarkup.Cli.Run
import WikiMarkup.Proofs.Text.Utf8

/-!
# What a request needs

A request that is to write a page needs five things in turn: settings, a format that is registered,
markup that is UTF-8, markup that is not too large, and markup that becomes a page. Either it has
them all, or one of them is the first that it lacks.
-/

namespace WikiMarkup.Cli

open Format

/-! ## Obstacles -/

/-- What can stop a run from writing a page. -/
inductive Obstacle where
  | settings (e : Settings.Error)
  | format (name : String)
  | source (e : ReadError)
  | markup (text : String) (e : ParseFailure)

namespace Obstacle

/-- The events that come before the report. -/
def events : Obstacle → List LogEvent
  | .markup text e => parseEvents text (.error e)
  | _ => []

/-- What is reported to someone who gave this path. -/
def report (path : Option String) : Obstacle → String
  | .settings e => "Configuration error: " ++ e.message
  | .format name => "Format '" ++ name ++ "' not found\nAvailable formats: " ++
    "html, json, tag, treeviz, yaml"
  | .source e => "Error reading " ++ path.getD "stdin" ++ ": " ++ e.message
  | .markup _ e => "Parse error: " ++ e.message

end Obstacle

variable {w : Host Id} {name : String} {state : FileState} {path config : Option String}
variable {loaded : Except Settings.Error Settings} {bytes : Except ReadError (List UInt8)}

/-! ## Settings and markup -/

/-- What is read gives its bytes, or is refused for what it is. -/
inductive FileState.Yields : FileState → Except ReadError (List UInt8) → Prop where
  | content {bytes : List UInt8} : Yields (.content bytes) (.ok bytes)
  | stream {bytes : List UInt8} : Yields (.stream bytes) (.ok bytes)
  | absent : Yields .absent (.error .absent)
  | directory : Yields .directory (.error .directory)
  | unreadable {regular : Bool} {reason : String} :
    Yields (.unreadable regular reason) (.error (.unreadable reason))

/-- The bytes of the markup: of the standard input without a path or for a hyphen, and else of the
file at the path. -/
inductive Host.Source (w : Host Id) : Option String → Except ReadError (List UInt8) → Prop where
  | input {bytes : Except ReadError (List UInt8)} : FileState.Yields w.input bytes →
    Source w none bytes
  | hyphen {bytes : Except ReadError (List UInt8)} : FileState.Yields w.input bytes →
    Source w (some "-") bytes
  | file {path : String} {bytes : Except ReadError (List UInt8)} : path ≠ "-" →
    FileState.Yields (w.file path) bytes → Source w (some path) bytes

end WikiMarkup.Cli
