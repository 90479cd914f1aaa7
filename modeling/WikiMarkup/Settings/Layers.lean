import WikiMarkup.Settings.Error
import WikiMarkup.Settings.Merge
import WikiMarkup.Text.Decode
import WikiMarkup.Toml.Document

/-!
# Settings in layers

The built-in settings are the lowest layer. Files are laid over them in order, and single settings
over all files, wherever they stand among them; of two single settings for one path the later is the
only one. The tree that results is read off as a record: sizes may also be written as truth values,
fractions or text, and the name of a format as anything but a table or a list.
-/

namespace WikiMarkup

structure Settings where
  /-- The most bytes that markup may have; no limit if zero. -/
  maxInputBytes : Nat
  /-- The name of the format to write. -/
  format : String
deriving DecidableEq, Repr

namespace Settings

/-- A file that was found, and what is in it. -/
structure SourceFile where
  name : String
  bytes : List UInt8
deriving DecidableEq, Repr

inductive Layer where
  /-- A file asked for by name, which was found or not; it may be required or not. -/
  | file (name : String) (required : Bool) (found : Option SourceFile)
  /-- A file asked for by name that is there and cannot be read. -/
  | unreadable (name : String) (required : Bool) (reason : String)
  /-- A single setting. -/
  | single (key : String) (value : Value)

/-- The built-in settings. -/
def builtIn : Value :=
  .table
    [("parser", .table [("max_input_bytes", .scalar (.integer 262144) none)] none),
      ("output", .table [("format", .scalar (.string "html") none)] none)]
    none

/-! ## Laying files and single settings over each other -/

/-- The text of a file, without the mark that may stand in front of it. -/
def SourceFile.text (f : SourceFile) : String :=
  Text.ofBytesLossy <|
    match f.bytes with
    | 0xef :: 0xbb :: 0xbf :: bs => bs
    | bs => bs

/-- The entries of a file. -/
def SourceFile.entries (f : SourceFile) : Except Error (List (String × Value)) :=
  match Toml.parse f.text with
  | some es => .ok (Value.ofTomlEntries f.name es)
  | none => .error (.notToml f.name)

/-- Put the entries of a file in place; their keys are paths if they can be read as such. -/
def putTop (root : Value) : List (String × Value) → Value
  | [] => root
  | (key, v) :: es =>
    match Path.ofString? key with
    | some p => putTop (root.put p v) es
    | none => putTop (root.putKey key v) es

/-- Lay the files over each other; single settings are passed over. -/
def layFiles (root : Value) : List Layer → Except Error Value
  | [] => .ok root
  | .single _ _ :: layers => layFiles root layers
  | .file _ _ (some f) :: layers =>
    match f.entries with
    | .ok es => layFiles (putTop root es) layers
    | .error e => .error e
  | .file name true none :: _ => .error (.notFound name)
  | .file _ false none :: layers => layFiles root layers
  | .unreadable _ true reason :: _ => .error (.unreadable reason)
  | .unreadable _ false _ :: layers => layFiles root layers

/-- Add a single setting in front of later ones, unless one of them has its path. -/
def addSingle (p : Path) (v : Value) (later : List (Path × Value)) : List (Path × Value) :=
  if p ∈ later.map (·.1) then later else (p, v) :: later

/-- The paths and values of the single settings; files are passed over. -/
def singles : List Layer → Except Error (List (Path × Value))
  | [] => .ok []
  | .file _ _ _ :: layers | .unreadable _ _ _ :: layers => singles layers
  | .single key v :: layers =>
    match Path.ofString? key with
    | some p => (singles layers).map (addSingle p v)
    | none => .error (.badKey key)

/-- Put the single settings in place. -/
def laySingles (root : Value) : List (Path × Value) → Value
  | [] => root
  | (p, v) :: more => laySingles (root.put p v) more

/-- The tree of all layers. The keys of single settings are looked at first. -/
def merged (layers : List Layer) : Except Error Value :=
  match singles layers with
  | .error e => .error e
  | .ok settings => (layFiles builtIn layers).map (laySingles · settings)

/-! ## Reading the tree off -/

/-- A size from the words for truth values, in letters of any case, or from digits. -/
def sizeOfString? (s : String) : Option Nat :=
  let small := s.toLower
  if small = "true" ∨ small = "on" ∨ small = "yes" then some 1
  else if small = "false" ∨ small = "off" ∨ small = "no" then some 0
  else Decimal.nat64OfString? s

/-- The size that a value stands for, of what was found and what was wanted. -/
def toSize : Value → Except (Found × Wanted) Nat
  | .scalar (.integer n) _ => if n < 0 then .error (.negative n, .size) else .ok n.toNat
  | .scalar (.wide signed n) _ =>
    if 0 ≤ n ∧ n.toNat < Nat.pow 2 64 then .ok n.toNat else .error (.noSize signed n, .size)
  | .scalar (.float x) _ => .ok (x.toNatBelow (Nat.pow 2 64))
  | .scalar (.boolean b) _ => .ok b.toNat
  | .scalar (.string s) _ =>
    match sizeOfString? s with
    | some n => .ok n
    | none => .error (.scalar (.string s), .writtenSize)
  | v => .error (.ofValue v, .size)

/-- The text that a value stands for. -/
def toText : Value → Except (Found × Wanted) String
  | .scalar (.integer n) _ | .scalar (.wide _ n) _ => .ok (toString n)
  | .scalar (.float x) _ => .ok x.text
  | .scalar (.boolean b) _ => .ok (if b then "true" else "false")
  | .scalar (.string s) _ => .ok s
  | v => .error (.ofValue v, .string)

/-- The value of the one field of a section, and the path to it. A list gives its fields by their
order. -/
def fieldOf (part : Section) : Value → Except Error (Value × String)
  | .table es _ =>
    match es.lookup part.field with
    | some v => .ok (v, part.key ++ "." ++ part.field)
    | none => .error (.missingField part.field)
  | .list (v :: _) _ => .ok (v, part.key ++ "[0]")
  | .list [] _ => .error (.emptySection part)
  | v => .error (.wrongSection (.ofValue v) part)

/-- Convert the field of a section of the tree. -/
def readField {α : Type} (convert : Value → Except (Found × Wanted) α) (part : Section)
    (root : Value) : Except Error α :=
  match root.entries.lookup part.key with
  | none => .error (.missingField part.key)
  | some v =>
    match fieldOf part v with
    | .error e => .error e
    | .ok (v, path) =>
      (convert v).mapError fun (found, wanted) => .wrongValue found wanted path v.source

/-- The settings from the results for both sections. If both are wrong, the section that is looked at
first is reported. -/
def combine (first : Section) : Except Error Nat → Except Error String → Except Error Settings
  | .ok maxInputBytes, .ok format => .ok { maxInputBytes, format }
  | .error e, .ok _ | .ok _, .error e => .error e
  | .error e, .error e' =>
    match first with
    | .parser => .error e
    | .output => .error e'

def ofTree (root : Value) (first : Section) : Except Error Settings :=
  combine first (readField toSize .parser root) (readField toText .output root)

/-- The settings of all layers together. A table has no order of its own, so any section may be the
one that is looked at first. -/
def load (layers : List Layer) (first : Section := .parser) : Except Error Settings :=
  match merged layers with
  | .ok root => ofTree root first
  | .error e => .error e

end Settings

end WikiMarkup
