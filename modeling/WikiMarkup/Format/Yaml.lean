import WikiMarkup.Node.Basic
import WikiMarkup.Yaml.Scalar

/-!
# Trees as YAML

A node is tagged by its kind. Leaves are scalars, containers block sequences of their children, and
a header is a mapping of its level and its children. Empty sequences are written in brackets.
-/

namespace WikiMarkup.Format

mutual

/-- Write a node whose own lines stand at `column`, after `out`. -/
def appendYaml (column : Nat) : Node → String → String
  | .text s, out => Yaml.appendScalar (max 2 column) s (out ++ "!text ")
  | .link s, out => Yaml.appendScalar (max 2 column) s (out ++ "!link ")
  | .bold cs, out => appendYamlChildren column cs (out ++ "!bold")
  | .italics cs, out => appendYamlChildren column cs (out ++ "!italics")
  | .header level cs, out =>
    appendYamlChildren column cs
      (out ++ "!header\n" ++ Yaml.blanks column ++ s!"level: {level.number}\n" ++
        Yaml.blanks column ++ "children:")
  | .paragraph cs, out => appendYamlChildren column cs (out ++ "!paragraph")
  | .document cs, out => appendYamlChildren column cs (out ++ "!document")

/-- Write the children of a node after its tag or key. -/
def appendYamlChildren (column : Nat) : List Node → String → String
  | [], out => out ++ " []\n"
  | n :: ns, out =>
    appendYamlItems column ns
      (appendYaml (column + 2) n (out ++ "\n" ++ Yaml.blanks column ++ "- "))

/-- Write further items of a sequence. -/
def appendYamlItems (column : Nat) : List Node → String → String
  | [], out => out
  | n :: ns, out =>
    appendYamlItems column ns (appendYaml (column + 2) n (out ++ Yaml.blanks column ++ "- "))

end

def yaml (n : Node) : String := appendYaml 0 n ""

end WikiMarkup.Format
