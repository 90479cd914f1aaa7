/-!
# Document trees

A page is a tree: a document of headers and paragraphs, which hold spans of bold and italics, links
and texts. The type allows any nesting; which trees come from a page is a matter of the rules.

Functions that go through a whole tree hand on what they have made so far, so that a long list of
siblings costs no stack.
-/

namespace WikiMarkup

/-- The size of a header; level 1 is the biggest. -/
inductive HeaderLevel where
  | h1
  | h2
  | h3
deriving DecidableEq, Repr

namespace HeaderLevel

def number : HeaderLevel → Nat
  | .h1 => 1
  | .h2 => 2
  | .h3 => 3

/-- The name of the level's HTML element. -/
def tag : HeaderLevel → String
  | .h1 => "h1"
  | .h2 => "h2"
  | .h3 => "h3"

/-- The level that a run of exclamation marks stands for; spaces and tabs after it do not count. -/
def ofMarker? (marker : String) : Option HeaderLevel :=
  match (marker.toList.reverse.dropWhile fun c => c == ' ' || c == '\t') with
  | ['!', '!', '!', '!'] => some .h1
  | ['!', '!', '!'] => some .h2
  | ['!', '!'] => some .h3
  | _ => none

def ofNumber? : Nat → Option HeaderLevel
  | 1 => some .h1
  | 2 => some .h2
  | 3 => some .h3
  | _ => none

end HeaderLevel

inductive Node where
  | text (text : String)
  /-- A link to the page named by the text, which is its label too. -/
  | link (target : String)
  | bold (children : List Node)
  | italics (children : List Node)
  | header (level : HeaderLevel) (children : List Node)
  | paragraph (children : List Node)
  | document (children : List Node)
deriving BEq, Repr, Inhabited

namespace Node

/-- The kinds of node. -/
inductive Kind where
  | text
  | link
  | bold
  | italics
  | header
  | paragraph
  | document
deriving DecidableEq, Repr

def Kind.name : Kind → String
  | .text => "text"
  | .link => "link"
  | .bold => "bold"
  | .italics => "italics"
  | .header => "header"
  | .paragraph => "paragraph"
  | .document => "document"

def Kind.all : List Kind := [.text, .link, .bold, .italics, .header, .paragraph, .document]

def Kind.ofName? (name : String) : Option Kind := Kind.all.find? (·.name == name)

def kind : Node → Kind
  | .text _ => .text
  | .link _ => .link
  | .bold _ => .bold
  | .italics _ => .italics
  | .header _ _ => .header
  | .paragraph _ => .paragraph
  | .document _ => .document

/-- The direct children; texts and links have none. -/
def children : Node → List Node
  | .text _ | .link _ => []
  | .bold cs | .italics cs | .header _ cs | .paragraph cs | .document cs => cs

/-- The text of a leaf. -/
def leafText? : Node → Option String
  | .text s | .link s => some s
  | _ => none

/-- Headers and paragraphs are the blocks of a page. -/
def isBlock : Node → Bool
  | .header _ _ | .paragraph _ => true
  | _ => false

mutual

/-- Write the texts of the leaves, in order, after `out`. -/
def appendText : Node → String → String
  | .text s, out => out ++ s
  | .link s, out => out ++ s
  | .bold cs, out => appendTexts cs out
  | .italics cs, out => appendTexts cs out
  | .header _ cs, out => appendTexts cs out
  | .paragraph cs, out => appendTexts cs out
  | .document cs, out => appendTexts cs out

def appendTexts : List Node → String → String
  | [], out => out
  | n :: ns, out => appendTexts ns (n.appendText out)

end

/-- All text of the tree in order, without any markup. -/
def plainText (n : Node) : String := n.appendText ""

mutual

/-- Whether there is a link to the target somewhere in the tree. -/
def hasLink (target : String) : Node → Bool
  | .text _ => false
  | .link s => s == target
  | .bold cs => anyHasLink target cs
  | .italics cs => anyHasLink target cs
  | .header _ cs => anyHasLink target cs
  | .paragraph cs => anyHasLink target cs
  | .document cs => anyHasLink target cs

def anyHasLink (target : String) : List Node → Bool
  | [] => false
  | n :: ns => n.hasLink target || anyHasLink target ns

end

mutual

/-- Whether there is a link somewhere in the tree. -/
def hasSomeLink : Node → Bool
  | .text _ => false
  | .link _ => true
  | .bold cs => anyHasSomeLink cs
  | .italics cs => anyHasSomeLink cs
  | .header _ cs => anyHasSomeLink cs
  | .paragraph cs => anyHasSomeLink cs
  | .document cs => anyHasSomeLink cs

def anyHasSomeLink : List Node → Bool
  | [] => false
  | n :: ns => n.hasSomeLink || anyHasSomeLink ns

end

end Node

end WikiMarkup
