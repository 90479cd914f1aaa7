import WikiMarkup.Node.Basic
import WikiMarkup.Text.Blank

/-!
# Outlines

A drawing of the tree with one line per node: connectors that show the nesting, an icon for the
kind, and a label. The label is the plain text without white space at its ends, cut after thirty
characters; that of a header begins with its element name.
-/

namespace WikiMarkup.Format

/-- The text if it has at most `limit` characters, else that many of them and an ellipsis. -/
def truncate (limit : Nat) (s : String) : String :=
  let cs := s.toList
  if cs.length > limit then String.ofList (cs.take limit) ++ "..." else s

def outlineIcon : Node.Kind → String
  | .document => "⧉"
  | .header => "§"
  | .paragraph => "¶"
  | .text => "◦"
  | .link => "⊕"
  | .bold => "𝐁"
  | .italics => "𝐼"

def outlineLabel (n : Node) : String :=
  let text := Text.trim n.plainText
  match n with
  | .header level _ => truncate 30 s!"{level.tag} {text}"
  | _ => truncate 30 text

/-- Icon and label. -/
def outlineHead (n : Node) : String := s!"{outlineIcon n.kind} {outlineLabel n}\n"

mutual

/-- Draw the children of a node after `out`; `lead` stands at the head of each of their lines. -/
def drawChildren (lead : String) : Node → String → String
  | .text _, out => out
  | .link _, out => out
  | .bold cs, out => drawAll lead cs out
  | .italics cs, out => drawAll lead cs out
  | .header _ cs, out => drawAll lead cs out
  | .paragraph cs, out => drawAll lead cs out
  | .document cs, out => drawAll lead cs out

/-- Draw siblings and what is below them. -/
def drawAll (lead : String) : List Node → String → String
  | [], out => out
  | [n], out => drawChildren (lead ++ "  ") n (out ++ lead ++ "└─ " ++ outlineHead n)
  | n :: m :: ns, out =>
    drawAll lead (m :: ns)
      (drawChildren (lead ++ "│ ") n (out ++ lead ++ "├─ " ++ outlineHead n))

end

def outline (n : Node) : String := drawChildren "" n (outlineHead n)

end WikiMarkup.Format
