import WikiMarkup.Node.Basic
import WikiMarkup.Peg.Grammar
import WikiMarkup.Rules.Name

/-!
# The rules of the markup

```text
Document      <- Block* END
Block         <- (Header / Paragraph) (Spacing EOL)*
Header        <- HeaderIntro InlineContent+ EOL
HeaderIntro   <- ("!!!!" / "!!!" / "!!") Spacing
Paragraph     <- InlineContent* EOL
InlineContent <- Bold / Italics / Link / Text
Bold          <- "*" BoldContent+ BoldEnd
BoldContent   <- !BoldEnd (Link / ItalicsWithoutBold / Text)
Italics       <- "/" ItalicsContent+ ItalicsEnd
ItalicsContent <- !ItalicsEnd (Link / BoldWithoutItalics / Text)
ItalicsWithoutBold <- "/" (!NestedEnd (Link / Text))+ (ItalicsEnd / &BoldEnd)
BoldWithoutItalics <- "*" (!NestedEnd (Link / Text))+ (BoldEnd / &ItalicsEnd)
NestedEnd     <- ItalicsEnd / &BoldEnd
Link          <- CapWord CapWord+
Text          <- (!(EOL / "*" / "/" / Link) .)+
CapWord       <- [A-Z] [a-z]+
BoldEnd       <- "*" / &EOL
ItalicsEnd    <- "/" / &EOL
Spacing       <- (" " / "\t")*
EOL           <- "\r\n" / "\n" / END
```

Bold and italics nest one level inside each other. A nested span stops early where the span around
it ends, so a span that is left open ends with its line, the inner span first. Rules that stand for
a node attach it to their match; the others only recognize text.
-/

namespace WikiMarkup

open Peg

/-- Expressions over the rules of the markup; their transforms report nothing. -/
abbrev MarkupExpr := Expr Rule Node Empty

namespace Rule

/-! ## Transforms -/

/-- A transform that reports nothing. -/
def quietly (f : Match Node → Match Node) : Transform Node Empty := fun m => (f m, [])

/-- Move the node of a part up to the whole match. -/
def lift (index : Nat) : Transform Node Empty := quietly fun m =>
  let (node, m) := m.takePartNode index
  { m with node }

/-- Gather the nodes of a repetition, which is one of the parts, under a new node. -/
def gather (index : Nat) (make : List Node → Node) : Transform Node Empty := quietly fun m =>
  let (nodes, m) := m.takeNestedNodes index
  { m with node := some (make (nodes.getD [])) }

def intoLink : Transform Node Empty := quietly fun m => { m with node := some (.link m.text) }

/-- The parts of a text are its characters, and are dropped. -/
def intoText : Transform Node Empty := quietly fun m =>
  { m with node := some (.text m.text), parts := [] }

/-- A header takes its level from the text of its first part. -/
def intoHeader : Transform Node Empty := fun m =>
  match m.parts.head?.bind fun intro => HeaderLevel.ofMarker? intro.text with
  | some level => gather 1 (.header level) m
  | none => (m, [])

/-! ## Bodies -/

def upperLetter : Regex := .anchored (.chars (.range 'A' 'Z'))

def lowerLetter : Regex := .anchored (.chars (.range 'a' 'z'))

/-- The expression of each rule. -/
def body : Rule → MarkupExpr
  | .document =>
    .onMatch (.sequence [.zeroOrMore (.rule .block), .endOfText]) (gather 0 .document)
  | .block =>
    .onMatch
      (.sequence [.firstOf [.rule .header, .rule .paragraph],
        .zeroOrMore (.sequence [.rule .spacing, .rule .eol])])
      (lift 0)
  | .header =>
    .onMatch (.sequence [.rule .headerIntro, .oneOrMore (.rule .inlineContent), .rule .eol])
      intoHeader
  | .paragraph =>
    .onMatch (.sequence [.zeroOrMore (.rule .inlineContent), .rule .eol]) (gather 0 .paragraph)
  | .inlineContent => .firstOf [.rule .bold, .rule .italics, .rule .link, .rule .text]
  | .link => .onMatch (.sequence [.rule .capWord, .oneOrMore (.rule .capWord)]) intoLink
  | .text =>
    .onMatch
      (.oneOrMore (.sequence
        [.notAhead (.firstOf [.rule .eol, .rule .boldDelim, .rule .italicsDelim, .rule .link]),
         .any]))
      intoText
  | .bold =>
    .onMatch (.sequence [.rule .boldDelim, .oneOrMore (.rule .boldContent), .rule .boldEnd])
      (gather 1 .bold)
  | .boldContent =>
    .onMatch
      (.sequence [.notAhead (.rule .boldEnd),
        .firstOf [.rule .link, .rule .italicsWithoutBold, .rule .text]])
      (lift 1)
  | .italicsWithoutBold =>
    .onMatch
      (.sequence [.rule .italicsDelim, .oneOrMore (.rule .italicsWithoutBoldContent),
        .firstOf [.rule .italicsEnd, .ahead (.rule .boldEnd)]])
      (gather 1 .italics)
  | .italicsWithoutBoldContent =>
    .onMatch
      (.sequence [.notAhead (.rule .nestedEnd), .firstOf [.rule .link, .rule .text]])
      (lift 1)
  | .italics =>
    .onMatch
      (.sequence [.rule .italicsDelim, .oneOrMore (.rule .italicsContent), .rule .italicsEnd])
      (gather 1 .italics)
  | .italicsContent =>
    .onMatch
      (.sequence [.notAhead (.rule .italicsEnd),
        .firstOf [.rule .link, .rule .boldWithoutItalics, .rule .text]])
      (lift 1)
  | .boldWithoutItalics =>
    .onMatch
      (.sequence [.rule .boldDelim, .oneOrMore (.rule .boldWithoutItalicsContent),
        .firstOf [.rule .boldEnd, .ahead (.rule .italicsEnd)]])
      (gather 1 .bold)
  | .boldWithoutItalicsContent =>
    .onMatch
      (.sequence [.notAhead (.rule .nestedEnd), .firstOf [.rule .link, .rule .text]])
      (lift 1)
  | .nestedEnd => .firstOf [.rule .italicsEnd, .ahead (.rule .boldEnd)]
  | .boldDelim => .literal "*"
  | .boldEnd => .firstOf [.rule .boldDelim, .ahead (.rule .eol)]
  | .italicsDelim => .literal "/"
  | .italicsEnd => .firstOf [.rule .italicsDelim, .ahead (.rule .eol)]
  | .capWord => .sequence [.rule .initialCap, .oneOrMore (.rule .lowercase)]
  | .initialCap => .pattern upperLetter
  | .lowercase => .pattern lowerLetter
  | .headerIntro => .sequence [.firstOf [.rule .h1, .rule .h2, .rule .h3], .rule .spacing]
  | .h1 => .literal "!!!!"
  | .h2 => .literal "!!!"
  | .h3 => .literal "!!"
  | .spacing => .zeroOrMore (.rule .whitespace)
  | .whitespace => .firstOf [.literal " ", .literal "\t"]
  | .eol => .firstOf [.literal "\r\n", .literal "\n", .endOfText]

/-- The rules of the markup as one grammar. -/
def grammar : Grammar Rule Node Empty := ⟨all, body⟩

/-- Apply a rule at a cursor. -/
def run (r : Rule) : Parser Node Empty := grammar.run (.rule r)

/-- The match of an expression over the rules at a cursor, if there is one. -/
def match? (e : MarkupExpr) (c : Cursor) : Option (Match Node) :=
  match grammar.run e c with
  | .ok reply => reply.value
  | .error _ => none

end Rule

end WikiMarkup
