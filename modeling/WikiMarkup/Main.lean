import Mathlib.Init
import WikiMarkup.Cli.Run

/-!
# The program

The outer layer: files, standard input, the time and the environment are read here, and what a run
leaves behind is written here.
-/

namespace WikiMarkup.Cli

/-- Look at a file, or at what else bytes are read from. -/
def look (regular : Bool) (bytes : IO ByteArray) : IO FileState := do
  try
    let bytes := (← bytes).toList
    return if regular then .content bytes else .stream bytes
  catch
    | .noFileOrDirectory _ _ _ => return .absent
    | .inappropriateType _ _ _ => return .directory
    | .permissionDenied _ code _ =>
      return .unreadable regular ("Permission denied (os error " ++ toString code ++ ")")
    | e => return .unreadable regular (toString e)

/-- Look at the file of a name. -/
def readFile (name : String) : IO FileState := do
  let file := (← IO.currentDir) / name
  let regular ←
    try pure ((← file.metadata).type matches .file)
    catch _ => pure false
  look regular (IO.FS.readBinFile file)

/-- The files and the standard input of the process. -/
def processHost : IO (Host IO) := do
  let directory ← IO.currentDir
  return {
    file := readFile
    input := do look false (← IO.getStdin).readBinToEnd
    directory := directory.toString }

/-- The time, down to microseconds. -/
def time : IO String := do
  let now := Std.Time.DateTime.ofTimestamp (← Std.Time.Timestamp.now) Std.Time.TimeZone.ZoneRules.UTC
  return now.format "uuuu-MM-dd'T'HH:mm:ss.SSSSSS'Z'"

end WikiMarkup.Cli

open WikiMarkup.Cli in
def main (arguments : List String) : IO UInt32 := do
  let outcome ← run (← processHost) (← IO.getEnv "RUST_LOG") arguments
  let now ← time
  (← IO.getStderr).putStr (outcome.stderr fun _ e => e.stamped now)
  (← IO.getStdout).putStr outcome.output
  return outcome.code.toUInt32
