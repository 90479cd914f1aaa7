import WikiMarkup.Text.Similarity

/-!
# Arguments of the command line

The program takes one path and a few options. An option that takes a value finds it behind an equals
sign, right behind its letter, or in the next argument, unless that is an option itself; `--` ends
the options. An option whose value comes in the next argument is settled only when the argument
after that is looked at: only then a missing value or a second occurrence of the option shows.
-/

namespace WikiMarkup.Cli

/-- What can be given on the command line. -/
inductive Parameter where
  | path
  | format
  | config
  | listFormats
  | help
  | version
deriving DecidableEq, Repr

namespace Parameter

/-- The options, in the order in which they are listed. -/
def options : List Parameter := [.format, .config, .listFormats, .help, .version]

/-- The name behind two hyphens. -/
def longName : Parameter → String
  | .path => "path"
  | .format => "format"
  | .config => "config"
  | .listFormats => "list-formats"
  | .help => "help"
  | .version => "version"

def ofLongName? (name : String) : Option Parameter := options.find? (·.longName == name)

def ofLetter? : Char → Option Parameter
  | 'f' => some .format
  | 'c' => some .config
  | 'h' => some .help
  | 'V' => some .version
  | _ => none

def takesValue : Parameter → Bool
  | .path | .format | .config => true
  | .listFormats | .help | .version => false

/-- How a parameter appears in messages. -/
def display : Parameter → String
  | .path => "[path]"
  | p => "--" ++ p.longName ++ if p.takesValue then " <" ++ p.longName ++ ">" else ""

end Parameter

/-! ## What can be wrong -/

/-- What a message about an unknown argument suggests. -/
inductive Tip where
  | similar (p : Parameter)
  | asValue (argument : String)
deriving DecidableEq, Repr

inductive ArgumentError where
  /-- An unknown argument; `used` are the parameters given so far that the usage shows. -/
  | unexpected (argument : String) (tip : Option Tip) (used : List Parameter)
  | valueRequired (p : Parameter)
  | repeated (p : Parameter)
  /-- A value for an option that takes none. -/
  | unexpectedValue (value : String) (p : Parameter) (used : List Parameter)
deriving DecidableEq, Repr

/-- The line that shows how the program is used: with all parameters, or with those used and the
path. -/
def usage (used : List Parameter) : String :=
  if used.isEmpty then "Usage: miniwiki [OPTIONS] [path]"
  else
    let options := (used.filter (· ≠ .path)).eraseDups
    options.foldl (fun line p => line ++ " " ++ p.display) "Usage: miniwiki" ++ " [path]"

def Tip.text : Tip → String
  | .similar p => "  tip: a similar argument exists: '--" ++ p.longName ++ "'"
  | .asValue argument =>
    "  tip: to pass '" ++ argument ++ "' as a value, use '-- " ++ argument ++ "'"

/-- The parts of a message, which an empty line separates. -/
def ArgumentError.parts : ArgumentError → List String
  | .unexpected argument tip used =>
    ["error: unexpected argument '" ++ argument ++ "' found"] ++ (tip.map Tip.text).toList
      ++ [usage used]
  | .valueRequired p =>
    ["error: a value is required for '" ++ p.display ++ "' but none was supplied"]
  | .repeated p =>
    ["error: the argument '" ++ p.display ++ "' cannot be used multiple times", usage []]
  | .unexpectedValue value p used =>
    ["error: unexpected value '" ++ value ++ "' for '" ++ p.display
      ++ "' found; no more were expected", usage used]

def ArgumentError.message (e : ArgumentError) : String :=
  "\n\n".intercalate (e.parts ++ ["For more information, try '--help'.\n"])

/-! ## Reading -/

/-- What is known after some arguments: the parameters given with their values, in order, and the
one that is not settled yet with its value, if that has come. -/
structure Given where
  settled : List (Parameter × String)
  pending : Option (Parameter × Option String)
  /-- Whether `--` was met. -/
  optionsEnded : Bool
deriving DecidableEq, Repr

/-- Why reading ends early. -/
inductive Stop where
  | help
  | version
  | error (e : ArgumentError)
deriving DecidableEq, Repr

namespace Given

/-- Before the first argument. -/
def start : Given := ⟨[], none, false⟩

/-- The parameters settled so far. -/
def used (g : Given) : List Parameter := g.settled.map (·.1)

/-- Settle a parameter. One that was settled before is dropped, and refused. -/
def settle (g : Given) (p : Parameter) (value : String) : Given × Option ArgumentError :=
  if p ∈ g.used then
    ({ g with settled := g.settled.filter fun (q, _) => q ≠ p }, some (.repeated p))
  else ({ g with settled := g.settled ++ [(p, value)] }, none)

/-- Settle what is pending, if anything is. -/
def settlePending (g : Given) : Given × Option ArgumentError :=
  match g.pending with
  | none => (g, none)
  | some (p, none) => ({ g with pending := none }, some (.valueRequired p))
  | some (p, some value) => settle { g with pending := none } p value

/-- A step that may be refused. -/
def orStop : Given × Option ArgumentError → Except Stop Given
  | (g, none) => .ok g
  | (_, some e) => .error (.error e)

/-- An option that takes a value, with the value if it is part of the same argument. -/
def readValued (g : Given) (p : Parameter) (value : Option String) : Except Stop Given := do
  let g ← orStop g.settlePending
  match value with
  | some value => orStop (g.settle p value)
  | none => return { g with pending := some (p, none) }

/-- An option without a value. -/
def readFlag (g : Given) (p : Parameter) : Except Stop Given := do
  let g ← orStop g.settlePending
  match p with
  | .help => .error .help
  | .version => .error .version
  | p => orStop (g.settle p "")

/-- The error of an unknown name behind two hyphens. A name that is much like the one of an option
is taken for a slip, and that option counts as used. -/
def unknownName (g : Given) (name : String) : ArgumentError :=
  let used := g.settlePending.1.used
  let argument := "--" ++ name
  let similar := Text.mostAlike? 0.7 name (Parameter.options.map Parameter.longName)
  match similar.bind Parameter.ofLongName? with
  | some p => .unexpected argument (some (.similar p)) (if p ∈ used then used else used ++ [p])
  | none => .unexpected argument (some (.asValue argument)) used

/-- An argument that starts with two hyphens, cut at its first equals sign. -/
def readLong (g : Given) (name : String) (value : Option String) : Except Stop Given :=
  match Parameter.ofLongName? name, value with
  | some p, value =>
    if p.takesValue then g.readValued p value
    else
      match value with
      | some value => .error (.error (.unexpectedValue value p (g.used ++ [p])))
      | none => g.readFlag p
  | none, _ => .error (.error (g.unknownName name))

/-- A letter behind one hyphen, and what follows it in the same argument. No flag with a letter is
followed by others, as help and version end the reading. -/
def readShort (g : Given) (letter : Char) (rest : List Char) : Except Stop Given :=
  match Parameter.ofLetter? letter with
  | some p =>
    if p.takesValue then
      g.readValued p <|
        match rest with
        | [] => none
        | '=' :: value => some (String.ofList value)
        | value => some (String.ofList value)
    else g.readFlag p
  | none =>
    let argument := String.ofList ['-', letter]
    .error (.error (.unexpected argument (some (.asValue argument)) []))

/-- The value of an option, or the path. -/
def readPlain (g : Given) (argument : String) : Except Stop Given :=
  match g.pending, g.optionsEnded with
  | some (p, none), false => .ok { g with pending := some (p, some argument) }
  | _, _ =>
    if .path ∈ g.used then .error (.error (.unexpected argument none []))
    else do
      let g ← orStop g.settlePending
      return { g with settled := g.settled ++ [(.path, argument)] }

/-- The text before the first equals sign and the text after it, if there is one. -/
def cutAtEquals (cs : List Char) : String × Option String :=
  match cs.dropWhile (· != '=') with
  | [] => (String.ofList cs, none)
  | _ :: value => (String.ofList (cs.takeWhile (· != '=')), some (String.ofList value))

def readArgument (g : Given) (argument : String) : Except Stop Given :=
  if g.optionsEnded then g.readPlain argument
  else
    match argument.toList with
    | ['-', '-'] => .ok { g with optionsEnded := true }
    | '-' :: '-' :: cs => g.readLong (cutAtEquals cs).1 (cutAtEquals cs).2
    | '-' :: letter :: rest => g.readShort letter rest
    | _ => g.readPlain argument

def readAll (g : Given) : List String → Except Stop Given
  | [] => orStop g.settlePending
  | argument :: arguments =>
    match g.readArgument argument with
    | .ok g => g.readAll arguments
    | .error s => .error s

end Given

/-- What the arguments ask for, if it is neither help nor the version. -/
structure Request where
  path : Option String
  format : Option String
  config : Option String
  listFormats : Bool
deriving DecidableEq, Repr

def Request.ofArguments (arguments : List String) : Except Stop Request :=
  match Given.start.readAll arguments with
  | .ok g =>
    .ok
      { path := g.settled.lookup .path
        format := g.settled.lookup .format
        config := g.settled.lookup .config
        listFormats := (g.settled.lookup .listFormats).isSome }
  | .error s => .error s

end WikiMarkup.Cli
