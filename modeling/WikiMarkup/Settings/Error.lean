import WikiMarkup.Decimal.Shortest
import WikiMarkup.Settings.Value
import WikiMarkup.Text.Quoted

/-!
# What can be wrong with settings

A file may be missing, may refuse to be read or may be no TOML document, the key of a single setting
may be no path, a section may be no table, and a value may be of a kind that cannot be converted.
The message of a wrong value names the path to it and the file it comes from.
-/

namespace WikiMarkup.Settings

/-- The sections of the settings, each with one field. -/
inductive Section where
  | parser
  | output
deriving DecidableEq, Repr

namespace Section

def key : Section → String
  | .parser => "parser"
  | .output => "output"

def field : Section → String
  | .parser => "max_input_bytes"
  | .output => "format"

/-- What a section is called in messages. -/
def title : Section → String
  | .parser => "struct ParserConfig"
  | .output => "struct OutputConfig"

end Section

/-- What stands in a place where something else is wanted. -/
inductive Found where
  | nothing
  | scalar (s : Scalar)
  /-- A negative number where a size is wanted. -/
  | negative (n : Int)
  /-- An integer of 128 bits where a size is wanted, and it is none. -/
  | noSize (signed : Bool) (n : Int)
  | sequence
  | table
deriving DecidableEq, Repr

def Found.text : Found → String
  | .nothing => "unit value"
  | .scalar (.integer n) => s!"integer `{n}`"
  | .scalar (.wide signed n) => s!"integer `{n}` as " ++ if signed then "i128" else "u128"
  | .scalar (.float x) => s!"floating point `{x.textWithFraction}`"
  | .scalar (.boolean b) => s!"boolean `{b}`"
  | .scalar (.string s) => s!"string {Text.quote s}"
  | .negative n => s!"64-bit integer `{n}`"
  | .noSize true n => s!"128-bit integer `{n}`"
  | .noSize false n => s!"128-bit unsigned integer `{n}`"
  | .sequence => "sequence"
  | .table => "map"

/-- What is found when a whole value is looked at. -/
def Found.ofValue : Value → Found
  | .absent => .nothing
  | .scalar s _ => .scalar s
  | .list _ _ => .sequence
  | .table _ _ => .table

/-- What is wanted of a value. -/
inductive Wanted where
  | size
  /-- A text that writes a size. -/
  | writtenSize
  | string
deriving DecidableEq, Repr

def Wanted.text : Wanted → String
  | .size => "an unsigned 64 bit or less integer"
  | .writtenSize => "an integer"
  | .string => "a string"

inductive Error where
  /-- No file of the name exists. -/
  | notFound (name : String)
  /-- There is a file, and it cannot be read. -/
  | unreadable (reason : String)
  | notToml (source : String)
  | badKey (key : String)
  /-- A section is neither a table nor a list. -/
  | wrongSection (found : Found) (wanted : Section)
  /-- A section is an empty list, so its first item is missing. -/
  | emptySection (wanted : Section)
  | missingField (field : String)
  | wrongValue (found : Found) (wanted : Wanted) (key : String) (source : Option String)
deriving DecidableEq, Repr

def Error.message : Error → String
  | .notFound name => s!"configuration file \"{name}\" not found"
  | .unreadable reason => reason
  | .notToml source => s!"not a TOML document in {source}"
  | .badKey key => s!"not the path of a setting: {Text.quote key}"
  | .wrongSection found wanted => s!"invalid type: {found.text}, expected {wanted.title}"
  | .emptySection wanted => s!"invalid length 0, expected {wanted.title} with 1 element"
  | .missingField field => s!"missing field `{field}`"
  | .wrongValue found wanted key source =>
    s!"invalid type: {found.text}, expected {wanted.text} for key `{key}`" ++
      match source with
      | some source => s!" in {source}"
      | none => ""

end WikiMarkup.Settings
