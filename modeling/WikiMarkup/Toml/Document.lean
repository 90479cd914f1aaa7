import WikiMarkup.Toml.Number
import WikiMarkup.Toml.Quoted
import WikiMarkup.Toml.Value

/-!
# TOML documents

A document is a list of lines: blank ones, comments, headers of tables and of items of arrays of
tables, and keys with their values. A value may span several lines inside brackets and in text of
several lines. The result is one table, or nothing if the text is no document; why it is none is not
told.
-/

namespace WikiMarkup.Toml

/-- Neither values nor the parts of a key are nested as deep as this. -/
def nestingLimit : Nat := 80

/-! ## Comments and ends of lines -/

/-- The text after a comment, if there is one. -/
def skipComment : List Char → List Char
  | '#' :: cs => cs.dropWhile isTextChar
  | cs => cs

/-- The end of a line: blanks, a comment, and a line break or the end of the text. -/
def endLine? (cs : List Char) : Option (List Char) :=
  match skipComment (skipBlanks cs) with
  | [] => some []
  | cs => lineBreak? cs

/-- Drop blanks, line breaks, and comments that a line break ends. -/
def skipLines : Nat → List Char → List Char
  | 0, cs => cs
  | fuel + 1, cs =>
    let cs := skipBlanks cs
    match lineBreak? (skipComment cs) with
    | some rest => skipLines fuel rest
    | none => cs

/-! ## Keys -/

def isBareChar (c : Char) : Bool := c.isAlphanum || c == '_' || c == '-'

def readSimpleKey : Reader String := fun cs =>
  match Quoted.readLine cs with
  | some found => some found
  | none =>
    match cs.takeWhile isBareChar with
    | [] => none
    | key => some (String.ofList key, cs.drop key.length)

/-- The parts of a dotted key, with blanks about each. -/
def readKeyParts : Nat → Reader (List String)
  | 0, _ => none
  | fuel + 1, cs => do
    let (part, cs) ← readSimpleKey (skipBlanks cs)
    match skipBlanks cs with
    | '.' :: cs =>
      let (parts, cs) ← readKeyParts fuel cs
      return (part :: parts, cs)
    | cs => return ([part], cs)

/-- A dotted key: the parts before the last one, and the last one. -/
def readKey : Reader (List String × String) := fun cs => do
  let (parts, cs) ← readKeyParts (nestingLimit - 1) cs
  return ((parts.dropLast, ← parts.getLast?), cs)

/-! ## Values -/

def readScalar : Reader Value := fun cs =>
  match cs with
  | 't' :: 'r' :: 'u' :: 'e' :: cs => some (.boolean true, cs)
  | 'f' :: 'a' :: 'l' :: 's' :: 'e' :: cs => some (.boolean false, cs)
  | cs =>
    (Quoted.read cs).map (fun (s, cs) => (Value.string s, cs))
      <|> (Moment.read cs).map (fun (m, cs) => (Value.moment m, cs))
      <|> (Number.readFloat cs).map (fun (x, cs) => (Value.float x, cs))
      <|> (Number.readInteger cs).map (fun (n, cs) => (Value.integer n, cs))

/-- The items of an array, with commas between them and perhaps one at the end. -/
def readItems (item : Reader Value) : Nat → Reader (List Value)
  | 0, _ => none
  | fuel + 1, cs =>
    match skipLines cs.length cs with
    | ']' :: cs => some ([], cs)
    | cs => do
      let (v, cs) ← item cs
      match skipLines cs.length cs with
      | ',' :: cs =>
        let (vs, cs) ← readItems item fuel cs
        return (v :: vs, cs)
      | ']' :: cs => return ([v], cs)
      | _ => none

/-- The keys and values of an inline table, with commas between them. -/
def readPairs (item : Reader Value) : Nat → Draft.Entries → Reader Draft.Entries
  | 0, _, _ => none
  | fuel + 1, es, cs => do
    let ((path, key), cs) ← readKey cs
    let cs ← expect '=' cs
    let (v, cs) ← item (skipBlanks cs)
    let es ← Draft.assign path key v es
    match skipBlanks cs with
    | ',' :: cs => readPairs item fuel es cs
    | '}' :: cs => return (es, cs)
    | _ => none

/-- A value in which brackets are nested to the depth given at most. -/
def readValue : Nat → Reader Value
  | 0, cs => readScalar cs
  | depth + 1, '[' :: cs =>
    (readItems (readValue depth) (cs.length + 1) cs).map fun (vs, cs) => (.array vs, cs)
  | depth + 1, '{' :: cs =>
    match skipBlanks cs with
    | '}' :: cs => some (.table [], cs)
    | cs =>
      (readPairs (readValue depth) (cs.length + 1) [] cs).map fun (es, cs) =>
        (.table (Draft.finishEntries es), cs)
  | _, cs => readScalar cs

/-! ## Lines -/

/-- A document in the making: its tables, and the header that the next line stands under. -/
structure Unfinished where
  root : Draft.Entries
  header : List String

namespace Unfinished

/-- A header, and the line break after it. -/
def readHeader (u : Unfinished) : Reader Unfinished
  | '[' :: '[' :: cs => do
    let ((path, key), cs) ← readKey cs
    let cs ← expect ']' cs
    let cs ← expect ']' cs
    return (⟨← Draft.declareItem path key u.root, path ++ [key]⟩, ← endLine? cs)
  | '[' :: cs => do
    let ((path, key), cs) ← readKey cs
    let cs ← expect ']' cs
    return (⟨← Draft.declare path key u.root, path ++ [key]⟩, ← endLine? cs)
  | _ => none

/-- A key with its value, and the line break after it. -/
def readAssignment (u : Unfinished) : Reader Unfinished := fun cs => do
  let ((path, key), cs) ← readKey cs
  let cs ← expect '=' cs
  let (v, cs) ← readValue (nestingLimit - 1) (skipBlanks cs)
  let cs ← endLine? cs
  return ({ u with root := ← Draft.assignUnder u.header path key v u.root }, cs)

/-- Read the lines up to the end of the text; each is at least a character long. -/
def readLines : Nat → Unfinished → List Char → Option Unfinished
  | 0, _, _ => none
  | fuel + 1, u, cs =>
    match skipBlanks cs with
    | [] => some u
    | '[' :: cs => do
      let (u, cs) ← u.readHeader ('[' :: cs)
      readLines fuel u cs
    | cs =>
      match endLine? cs with
      | some cs => readLines fuel u cs
      | none => do
        let (u, cs) ← u.readAssignment cs
        readLines fuel u cs

end Unfinished

/-- The mark that may stand in front of a text. -/
def skipByteOrderMark : List Char → List Char
  | '\ufeff' :: cs => cs
  | cs => cs

/-- The table that a document writes. -/
def parse (text : String) : Option (List (String × Value)) :=
  let cs := skipByteOrderMark text.toList
  (Unfinished.readLines (cs.length + 1) ⟨[], []⟩ cs).map fun u => Draft.finishEntries u.root

end WikiMarkup.Toml
