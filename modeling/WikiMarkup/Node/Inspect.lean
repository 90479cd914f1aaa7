import WikiMarkup.Node.Basic
import WikiMarkup.Text.Quoted

/-!
# Trees in messages

The constructor notation in which messages show a tree: `Bold([Text("a")])`, and a header with its
fields named, `Header { level: H2, children: [] }`.
-/

namespace WikiMarkup

def HeaderLevel.inspect : HeaderLevel → String
  | .h1 => "H1"
  | .h2 => "H2"
  | .h3 => "H3"

namespace Node

def Kind.inspect : Kind → String
  | .text => "Text"
  | .link => "Link"
  | .bold => "Bold"
  | .italics => "Italics"
  | .header => "Header"
  | .paragraph => "Paragraph"
  | .document => "Document"

mutual

/-- Write the tree after `out`. -/
def appendInspect : Node → String → String
  | .text s, out => out ++ "Text(" ++ Text.quote s ++ ")"
  | .link s, out => out ++ "Link(" ++ Text.quote s ++ ")"
  | .bold cs, out => appendInspectList cs (out ++ "Bold([") ++ "])"
  | .italics cs, out => appendInspectList cs (out ++ "Italics([") ++ "])"
  | .header level cs, out =>
    appendInspectList cs (out ++ "Header \x7b level: " ++ level.inspect ++ ", children: [")
      ++ "] \x7d"
  | .paragraph cs, out => appendInspectList cs (out ++ "Paragraph([") ++ "])"
  | .document cs, out => appendInspectList cs (out ++ "Document([") ++ "])"

/-- Write trees with commas between them after `out`. -/
def appendInspectList : List Node → String → String
  | [], out => out
  | n :: ns, out => appendInspectMore ns (n.appendInspect out)

/-- Write trees with a comma before each of them after `out`. -/
def appendInspectMore : List Node → String → String
  | [], out => out
  | n :: ns, out => appendInspectMore ns (n.appendInspect (out ++ ", "))

end

def inspect (n : Node) : String := n.appendInspect ""

end Node

end WikiMarkup
