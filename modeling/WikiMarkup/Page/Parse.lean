import WikiMarkup.Rules.Markup

/-!
# Reading a page

The markup of a page is read with a line feed added, so that it need not end with one. If the rules
do not reach the end of the text, the failure tells where the first block starts that could not be
read.
-/

namespace WikiMarkup

/-- Why markup did not become a document. -/
inductive ParseFailure where
  /-- No block can be read from byte `offset` on. -/
  | noMatch (offset line column : Nat)
  /-- The markup has more bytes than are allowed. -/
  | tooLarge (size limit : Nat)
deriving DecidableEq, Repr

def ParseFailure.message : ParseFailure → String
  | .noMatch _ line column => s!"Markup could not be parsed at line {line}, column {column}"
  | .tooLarge size limit => s!"Markup is {size} bytes, over the limit of {limit} bytes"

namespace Page

/-- The start of the text that is read for a page. -/
def start (markup : String) : Cursor := .ofList (markup.toList ++ ['\n'])

/-- Where the blocks that can be read end. -/
def stuckAt (c : Cursor) : Nat :=
  match Rule.match? (.zeroOrMore (.rule .block)) c with
  | some m => m.consumed
  | none => 0

/-- The failure of a page whose blocks can be read up to byte `offset` only. -/
def failureAt (c : Cursor) (offset : Nat) : ParseFailure :=
  match c.advance offset with
  | .ok c => .noMatch offset c.line c.column
  | .error _ => .noMatch offset c.line c.column

/-- The document tree of a page. -/
def parse (markup : String) : Except ParseFailure Node :=
  let c := start markup
  match (Rule.match? (.rule .document) c).bind (·.node) with
  | some n => .ok n
  | none => .error (failureAt c (stuckAt c))

end Page

end WikiMarkup
