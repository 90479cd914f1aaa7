import WikiMarkup.Cli.Arguments
import WikiMarkup.Cli.Host
import WikiMarkup.Cli.Log
import WikiMarkup.Format.Registry
import WikiMarkup.Page.Processor
import WikiMarkup.Settings.Layers

/-!
# Runs of the program

A run reads markup from a file or from standard input and writes its tree in a format. Nothing is
asked of the host before it is needed, so the first thing that goes wrong is what the run reports:
the settings, the name of the format, the reading of the markup, its size, its parsing, and its
writing.
-/

namespace WikiMarkup.Cli

/-- What a run leaves behind. -/
structure Outcome where
  code : Nat
  output : String
  /-- The log events that are shown. -/
  log : List LogEvent
  /-- What is said about a failure, behind the log lines. -/
  report : String
deriving DecidableEq, Repr

namespace Outcome

def success (output : String) : Outcome := ⟨0, output, [], ""⟩

/-- A failure with one message, behind the log lines of some events. -/
def failure (log : List LogEvent) (message : String) : Outcome := ⟨1, "", log, message ++ "\n"⟩

/-- What stands at the standard error output, with the lines of events written in some way. -/
def stderr (line : Nat → LogEvent → String) (o : Outcome) : String := logLines line o.log ++ o.report

/-- The standard error output without the times. -/
def errors (o : Outcome) : String := o.stderr fun _ e => e.line

end Outcome

/-! ## Texts -/

def helpText : String :=
  "Render wiki markup to HTML and other formats\n\n" ++ usage [] ++ "\n\n"
    ++ "Arguments:\n"
    ++ "  [path]  Path to the markup file ('-' or omitted reads stdin)\n\n"
    ++ "Options:\n"
    ++ "  -f, --format <format>  Output format "
    ++ "(default: output.format from config, normally 'html')\n"
    ++ "  -c, --config <config>  Configuration file layered over the built-in defaults\n"
    ++ "      --list-formats     List available output formats\n"
    ++ "  -h, --help             Print help\n"
    ++ "  -V, --version          Print version\n"

def versionText : String := "miniwiki 0.1.0\n"

/-- The formats with their descriptions. -/
def formatListing (r : Format.Registry) : String :=
  r.formatters.foldl
    (fun text f => text ++ "  " ++ f.name ++ "\n    " ++ f.description ++ "\n\n")
    "Available output formats:\n\n"

def Stop.outcome : Stop → Outcome
  | .help => .success helpText
  | .version => .success versionText
  | .error e => ⟨2, "", [], e.message⟩

/-! ## Events -/

def processorOrigin : String := "miniwiki::wiki::processor"

/-- The events of parsing, which its result tells. -/
def parseEvents (markup : String) : Except ParseFailure Node → List LogEvent
  | .error (.tooLarge size limit) =>
    [⟨.warn, processorOrigin, "markup over size limit",
      [("size", .number size), ("limit", .number limit)]⟩]
  | .error (.noMatch offset line column) =>
    [⟨.debug, processorOrigin, "parsing document", [("bytes", .number markup.utf8ByteSize)]⟩,
      ⟨.warn, processorOrigin, "markup did not parse",
        [("offset", .number offset), ("line", .number line), ("column", .number column)]⟩]
  | .ok n =>
    [⟨.debug, processorOrigin, "parsing document", [("bytes", .number markup.utf8ByteSize)]⟩,
      ⟨.debug, processorOrigin, "parsed document", [("blocks", .number n.children.length)]⟩]

def writeEvent (format : String) : LogEvent :=
  ⟨.trace, "miniwiki::wiki::formats::registry", "serializing document",
    [("format", .text format)]⟩

/-! ## Rendering -/

/-- The text without the line feeds at its end. -/
def trimLineFeeds (s : String) : String :=
  String.ofList (Text.dropEndWhile (· == '\n') s.toList)

/-- Parse markup and write it in a format. -/
def render (filter : LogFilter) (settings : Settings) (format markup : String) : Outcome :=
  let parsed := { maxInputBytes := settings.maxInputBytes : Processor }.parse markup
  let events := parseEvents markup parsed
  match parsed with
  | .error e => .failure (filter.shown events) s!"Parse error: {e.message}"
  | .ok n =>
    let log := filter.shown (events ++ [writeEvent format])
    match Format.Registry.withDefaults.serialize n format with
    | .error e => .failure log s!"Error formatting document: {e.message}"
    | .ok text => ⟨0, trimLineFeeds text ++ "\n", log, ""⟩

/-! ## Reading -/

/-- The layer of a settings file that was asked for by name, from what stands at the end of its
steps. -/
def layerOf (directory name : String) (steps : List String) : FileState → Settings.Layer
  | .content bytes => .file name true (some ⟨nameFrom directory steps, bytes⟩)
  | .unreadable true reason => .unreadable name true reason
  | _ => .file name true none

section

variable {m : Type → Type} [Monad m]

/-- The layer of the settings file of a name: of the regular file that has the name, or else of the
one with `.toml` behind the name. -/
def findSettings (host : Host m) (name : String) : m Settings.Layer := do
  let steps := stepsFromRoot host.directory name
  let state ← host.file name
  if state.isRegular then return layerOf host.directory name steps state
  else
    match withToml? steps with
    | none => return .file name true none
    | some steps =>
      let state ← host.file (nameFromRoot steps)
      return layerOf host.directory name steps state

/-- The settings of a run: the built-in ones under those of a file, if one is named. -/
def loadSettings (host : Host m) : Option String → m (Except Settings.Error Settings)
  | none => return Settings.load [] host.first
  | some name => do
    let layer ← findSettings host name
    return Settings.load [layer] host.first

/-- The bytes of the markup: from standard input if no path or `-` is given. -/
def readBytes (host : Host m) : Option String → m (Except ReadError (List UInt8))
  | none | some "-" => do
    let state ← host.input
    return state.read
  | some path => do
    let state ← host.file path
    return state.read

/-- The markup as text. -/
def readMarkup (host : Host m) (path : Option String) : m (Except ReadError String) := do
  match ← readBytes host path with
  | .error e => return .error e
  | .ok bytes =>
    match Text.ofBytes? bytes with
    | some markup => return .ok markup
    | none => return .error .notUtf8

/-! ## Whole runs -/

/-- Read the markup of a path and write it in a format. -/
def runWith (host : Host m) (filter : LogFilter) (settings : Settings) (format : String)
    (path : Option String) : m Outcome := do
  let registry := Format.Registry.withDefaults
  if registry.has format then
    match ← readMarkup host path with
    | .ok markup => return render filter settings format markup
    | .error e =>
      let name := path.getD "stdin"
      return .failure [] s!"Error reading {name}: {e.message}"
  else
    let names := ", ".intercalate registry.names
    return .failure [] s!"Format '{format}' not found\nAvailable formats: {names}"

def runRequest (host : Host m) (filter : LogFilter) (request : Request) : m Outcome := do
  if request.listFormats then return .success (formatListing Format.Registry.withDefaults)
  else
    match ← loadSettings host request.config with
    | .error e => return .failure [] s!"Configuration error: {e.message}"
    | .ok settings =>
      runWith host filter settings (request.format.getD settings.format) request.path

/-- A run with some arguments; `logging` is the filter of log lines as it is given. -/
def run (host : Host m) (logging : Option String) (arguments : List String) : m Outcome :=
  match Request.ofArguments arguments with
  | .error stop => return stop.outcome
  | .ok request => runRequest host (.ofSetting logging) request

end

end WikiMarkup.Cli
