import WikiMarkup.Node.Visitor

/-!
# Tags

One element per node, named by its kind and indented by two blanks per level: leaves on one line
around their escaped text, containers around their children, empty containers on one line. A header
carries its level as an attribute.
-/

namespace WikiMarkup.Format

/-- The characters that stand for one character inside an element. -/
def escapeTagChar : Char → String
  | '&' => "&amp;"
  | '<' => "&lt;"
  | '>' => "&gt;"
  | '"' => "&quot;"
  | c => c.toString

def escapeTagText (s : String) : String :=
  s.toList.foldl (fun out c => out ++ escapeTagChar c) ""

/-- What has been written, and the level at which the next line stands. -/
structure TagWriter where
  output : String
  level : Nat

namespace TagWriter

/-- Write a line at the present level. -/
def line (w : TagWriter) (s : String) : TagWriter :=
  { w with output := w.output ++ "".pushn ' ' (2 * w.level) ++ s ++ "\n" }

def leaf (name text : String) (w : TagWriter) : TagWriter :=
  w.line s!"<{name}>{escapeTagText text}</{name}>"

/-- Write a container whose opening tag has the given attributes. -/
def container (name attributes : String) (children : List Node) (walk : TagWriter → TagWriter)
    (w : TagWriter) : TagWriter :=
  if children.isEmpty then w.line s!"<{name}{attributes}></{name}>"
  else
    let w := w.line s!"<{name}{attributes}>"
    let w := walk { w with level := w.level + 1 }
    { w with level := w.level - 1 }.line s!"</{name}>"

end TagWriter

def tagVisitor : Visitor TagWriter where
  text := TagWriter.leaf "text"
  link := TagWriter.leaf "link"
  bold := TagWriter.container "bold" ""
  italics := TagWriter.container "italics" ""
  header := fun level => TagWriter.container "header" s!" level=\"{level.number}\""
  paragraph := TagWriter.container "paragraph" ""
  document := TagWriter.container "document" ""

def tag (n : Node) : String := (n.visit tagVisitor ⟨"", 0⟩).output

end WikiMarkup.Format
