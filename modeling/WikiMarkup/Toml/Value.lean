import WikiMarkup.Decimal.Binary64
import WikiMarkup.Toml.Moment

/-!
# Values of a TOML document

A table is a list of keys with their values, in which no key occurs twice. Tables can be written in
pieces, so a document is first a draft, which remembers how each table came about: a table that was
only passed through on the way to another one may still be declared, one that dotted keys made may
be extended by dotted keys, and a declared one takes no more than the lines below its header.
-/

namespace WikiMarkup.Toml

inductive Value where
  | string (s : String)
  | integer (n : Int)
  | float (x : Decimal.Binary64)
  | boolean (b : Bool)
  | moment (m : Moment)
  | array (items : List Value)
  | table (entries : List (String × Value))
deriving Inhabited

/-- How a table of a draft came about. -/
inductive Origin where
  /-- On the way to the table of a header. -/
  | passed
  /-- On the way of a dotted key. -/
  | dotted
  | declared
deriving DecidableEq, Repr

inductive Draft where
  | value (v : Value)
  | table (origin : Origin) (entries : List (String × Draft))
  /-- Tables under a header in double brackets; the last one is open. -/
  | tables (items : List (List (String × Draft)))

namespace Draft

abbrev Entries := List (String × Draft)

/-- Give a key a new entry in place of the one it has. -/
def replace (key : String) (d : Draft) : Entries → Entries
  | [] => []
  | (k, e) :: es => if k = key then (k, d) :: es else (k, e) :: replace key d es

/-- Change the table at the end of a path by `f`, which is told how that table came about. Tables
that are missing on the way are made with the origin `made`. Dotted keys do not pass through
declared tables; a header does. -/
def within (made : Origin) (f : Origin → Entries → Option Entries) (origin : Origin)
    (es : Entries) : List String → Option Entries
  | [] => f origin es
  | key :: path =>
    match es.lookup key with
    | none => do return es ++ [(key, .table made (← within made f made [] path))]
    | some (.value _) => none
    | some (.tables items) =>
      match items.getLast? with
      | none => none
      | some last => do
        return replace key (.tables (items.dropLast ++ [← within made f .declared last path])) es
    | some (.table origin inner) =>
      if made = .dotted ∧ origin = .declared then none
      else do return replace key (.table origin (← within made f origin inner path)) es

/-- Give a value to a dotted key. The table it goes into is the one at hand if the key has one part,
and otherwise one that dotted keys have made. -/
def assign (path : List String) (key : String) (v : Value) (es : Entries) : Option Entries :=
  within .dotted
    (fun origin inner =>
      if (origin == .dotted) == path.isEmpty ∨ (inner.lookup key).isSome then none
      else some (inner ++ [(key, .value v)]))
    .declared es path

/-- Declare the table of a header: a new one, or one that was only passed through. -/
def declare (path : List String) (key : String) (root : Entries) : Option Entries :=
  within .passed
    (fun _ inner =>
      match inner.lookup key with
      | none => some (inner ++ [(key, .table .declared [])])
      | some (.table .passed es) => some (replace key (.table .declared es) inner)
      | some _ => none)
    .declared root path

/-- Add a table to those of a header in double brackets. -/
def declareItem (path : List String) (key : String) (root : Entries) : Option Entries :=
  within .passed
    (fun _ inner =>
      match inner.lookup key with
      | none => some (inner ++ [(key, .tables [[]])])
      | some (.tables items) => some (replace key (.tables (items ++ [[]])) inner)
      | some _ => none)
    .declared root path

/-- Give a value to a dotted key in the table of a header. -/
def assignUnder (header path : List String) (key : String) (v : Value) (root : Entries) :
    Option Entries :=
  within .passed (fun _ es => assign path key v es) .declared root header

mutual

def finish : Draft → Value
  | .value v => v
  | .table _ es => .table (finishEntries es)
  | .tables items => .array (finishTables items)

def finishEntries : List (String × Draft) → List (String × Value)
  | [] => []
  | (key, d) :: es => (key, d.finish) :: finishEntries es

def finishTables : List (List (String × Draft)) → List Value
  | [] => []
  | es :: items => .table (finishEntries es) :: finishTables items

end

end Draft

end WikiMarkup.Toml
