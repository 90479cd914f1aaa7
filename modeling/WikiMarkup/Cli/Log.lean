import WikiMarkup.Decimal.Integer
import WikiMarkup.Text.Blank
import WikiMarkup.Text.Quoted

/-!
# Log lines and their filter

An event has a level, the part of the program it comes from, a message and fields. A filter is a
list of directives, each of which gives a verbosity to all events or to those whose origin starts
with a name. The directive with the longest name decides, of two with one name the later; an event
that no directive concerns is not shown. Warnings and errors are shown if the filter is not given or
cannot be read, and errors alone if it is empty.
-/

namespace WikiMarkup.Cli

inductive Level where
  | error
  | warn
  | info
  | debug
  | trace
deriving DecidableEq, Repr

namespace Level

/-- The verbosity from which on events of a level are shown. -/
def verbosity : Level → Nat
  | .error => 1
  | .warn => 2
  | .info => 3
  | .debug => 4
  | .trace => 5

def name : Level → String
  | .error => "ERROR"
  | .warn => "WARN"
  | .info => "INFO"
  | .debug => "DEBUG"
  | .trace => "TRACE"

end Level

/-- The value of a field of an event. -/
inductive FieldValue where
  | number (n : Nat)
  | text (s : String)
deriving DecidableEq, Repr

def FieldValue.display : FieldValue → String
  | .number n => toString n
  | .text s => Text.quote s

structure LogEvent where
  level : Level
  origin : String
  message : String
  fields : List (String × FieldValue)
deriving DecidableEq, Repr

namespace LogEvent

/-- The line of an event, behind the time and the blanks after it. -/
def line (e : LogEvent) : String :=
  e.fields.foldl (fun line (name, value) => line ++ " " ++ name ++ "=" ++ value.display)
    (e.level.name ++ " " ++ e.origin ++ ": " ++ e.message)

/-- The line of an event that happened at some time; the names of all levels end in one column. -/
def stamped (time : String) (e : LogEvent) : String :=
  time ++ "".pushn ' ' (6 - e.level.name.length) ++ e.line

end LogEvent

/-- The lines of some events; the line of an event may depend on how many there were before it, as
it begins with the time. -/
def logLines (line : Nat → LogEvent → String) (es : List LogEvent) : String :=
  String.join (es.mapIdx fun i e => line i e ++ "\n")

/-! ## Filters -/

/-- The events whose origin starts with a name, or all events, are shown up to a verbosity. -/
structure Directive where
  origin : Option String
  verbosity : Nat
deriving DecidableEq, Repr

namespace Directive

/-- The verbosity that lets all events through. -/
def everything : Nat := 5

/-- A verbosity from the name of a level, in letters of any case, or from its number. -/
def verbosityOf? (s : String) : Option Nat :=
  match (Decimal.nat64OfString? s).filter (· ≤ everything) with
  | some n => some n
  | none => ["off", "error", "warn", "info", "debug", "trace"].idxOf? s.toLower

/-- A name starts with a letter, a digit, a hyphen, a colon or an underscore; characters beyond
ASCII are taken for letters. -/
def startsName (c : Char) : Bool :=
  c.isAlphanum || c == '-' || c == ':' || c == '_' || 0x7f < c.toNat

/-- A directive is a level, a name, or a name and a level with an equals sign between them. The sign
is looked for in the text without the blanks at its ends. -/
def ofString? (s : String) : Option Directive :=
  let trimmed := (Text.trim s).toList
  let name := trimmed.takeWhile (· != '=')
  if ¬ trimmed.head?.any startsName ∨ '[' ∈ name then none
  else if name.length = trimmed.length then
    match verbosityOf? s with
    | some n => some ⟨none, n⟩
    | none => some ⟨some s, everything⟩
  else
    let origin := String.ofList (s.toList.take name.length)
    match s.toList.drop (name.length + 1) with
    | [] => some ⟨some origin, everything⟩
    | level => (verbosityOf? (String.ofList level)).map (⟨some origin, ·⟩)

/-- Whether a directive concerns an event. -/
def concerns (d : Directive) (e : LogEvent) : Bool :=
  match d.origin with
  | some name => name.toList.isPrefixOf e.origin.toList
  | none => true

/-- The length of the name; no name is shorter than any. -/
def rank (d : Directive) : Nat :=
  match d.origin with
  | some name => name.utf8ByteSize + 1
  | none => 0

end Directive

structure LogFilter where
  directives : List Directive
deriving DecidableEq, Repr

namespace LogFilter

/-- The filter that is used when none is given. -/
def standard : LogFilter := ⟨[⟨none, Level.warn.verbosity⟩]⟩

/-- A filter as it is given: directives with commas between them. -/
def ofString (s : String) : LogFilter :=
  match ((s.splitOn ",").filter (· ≠ "")).mapM Directive.ofString? with
  | none => standard
  | some [] => ⟨[⟨none, Level.error.verbosity⟩]⟩
  | some directives => ⟨directives⟩

def ofSetting : Option String → LogFilter
  | some s => ofString s
  | none => standard

/-- The directive that decides about an event. -/
def deciding? (f : LogFilter) (e : LogEvent) : Option Directive :=
  (f.directives.filter (·.concerns e)).foldl
    (fun best d =>
      match best with
      | some b => if b.rank ≤ d.rank then some d else best
      | none => some d)
    none

def shows (f : LogFilter) (e : LogEvent) : Bool :=
  (f.deciding? e).any fun d => e.level.verbosity ≤ d.verbosity

/-- The events that are shown. -/
def shown (f : LogFilter) (es : List LogEvent) : List LogEvent := es.filter f.shows

end LogFilter

end WikiMarkup.Cli
