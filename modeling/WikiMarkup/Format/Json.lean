import WikiMarkup.Node.Basic

/-!
# JSON

JSON values, their indented text, and trees as JSON values: a node is an object whose one key is
its kind; a header holds its level and its children. Objects keep the order of their keys. In
strings the quotation mark, the backslash and the control characters below the blank are escaped,
and nothing else is.
-/

namespace WikiMarkup

inductive Json where
  | null
  | bool (b : Bool)
  | number (n : Int)
  | string (s : String)
  | array (items : List Json)
  | object (members : List (String × Json))
deriving BEq, Repr

namespace Json

/-- A digit of an escape. -/
def hexDigit (n : Nat) : Char := Nat.digitChar n

/-- One character of a string. -/
def escapeChar (c : Char) : String :=
  match c with
  | '"' => "\\\""
  | '\\' => "\\\\"
  | '\x08' => "\\b"
  | '\x0c' => "\\f"
  | '\n' => "\\n"
  | '\r' => "\\r"
  | '\t' => "\\t"
  | c =>
    if c.toNat < 0x20 then
      String.ofList ['\\', 'u', '0', '0', hexDigit (c.toNat / 16), hexDigit (c.toNat % 16)]
    else c.toString

def escape (s : String) : String :=
  (s.toList.foldl (fun out c => out ++ escapeChar c) "\"") ++ "\""

/-- The start of a line at a level. -/
def newLine (level : Nat) : String := "\n".pushn ' ' (2 * level)

mutual

/-- Write the value after `out`; its lines but the first stand at `level` or deeper. -/
def append (level : Nat) : Json → String → String
  | .null, out => out ++ "null"
  | .bool b, out => out ++ (if b then "true" else "false")
  | .number n, out => out ++ toString n
  | .string s, out => out ++ escape s
  | .array [], out => out ++ "[]"
  | .array (item :: items), out =>
    let out := item.append (level + 1) (out ++ "[" ++ newLine (level + 1))
    appendItems (level + 1) items out ++ newLine level ++ "]"
  | .object [], out => out ++ "\x7b\x7d"
  | .object ((key, value) :: members), out =>
    let out := value.append (level + 1) (out ++ "\x7b" ++ newLine (level + 1) ++ escape key ++ ": ")
    appendMembers (level + 1) members out ++ newLine level ++ "\x7d"

def appendItems (level : Nat) : List Json → String → String
  | [], out => out
  | item :: items, out =>
    appendItems level items (item.append level (out ++ "," ++ newLine level))

def appendMembers (level : Nat) : List (String × Json) → String → String
  | [], out => out
  | (key, value) :: members, out =>
    appendMembers level members
      (value.append level (out ++ "," ++ newLine level ++ escape key ++ ": "))

end

/-- The text with one item or member per line, indented by two blanks per level. -/
def pretty (j : Json) : String := j.append 0 ""

end Json

namespace Node

mutual

def toJson : Node → Json
  | .text s => .object [("text", .string s)]
  | .link s => .object [("link", .string s)]
  | .bold cs => .object [("bold", .array (toJsonAll [] cs))]
  | .italics cs => .object [("italics", .array (toJsonAll [] cs))]
  | .header level cs =>
    .object [("header", .object
      [("level", .number level.number), ("children", .array (toJsonAll [] cs))])]
  | .paragraph cs => .object [("paragraph", .array (toJsonAll [] cs))]
  | .document cs => .object [("document", .array (toJsonAll [] cs))]

/-- The values of the nodes, after those already made, which come latest first. -/
def toJsonAll (made : List Json) : List Node → List Json
  | [] => made.reverse
  | n :: ns => toJsonAll (n.toJson :: made) ns

end

end Node

def Format.json (n : Node) : String := n.toJson.pretty

end WikiMarkup
