/-!
# Rule names

The rules of the markup, by what they recognize. Each has a name in writing.
-/

namespace WikiMarkup

inductive Rule where
  -- a page and its blocks
  | document
  | block
  | header
  | paragraph
  -- what a line is made of
  | inlineContent
  | link
  | text
  | bold
  | boldContent
  | boldWithoutItalics
  | boldWithoutItalicsContent
  | italics
  | italicsContent
  | italicsWithoutBold
  | italicsWithoutBoldContent
  | nestedEnd
  -- words, delimiters, blanks and line ends
  | boldDelim
  | boldEnd
  | italicsDelim
  | italicsEnd
  | capWord
  | initialCap
  | lowercase
  | headerIntro
  | h1
  | h2
  | h3
  | spacing
  | whitespace
  | eol
deriving DecidableEq, Repr

namespace Rule

def all : List Rule :=
  [.document, .block, .header, .paragraph, .inlineContent, .link, .text, .bold, .boldContent,
   .boldWithoutItalics, .boldWithoutItalicsContent, .italics, .italicsContent,
   .italicsWithoutBold, .italicsWithoutBoldContent, .nestedEnd, .boldDelim, .boldEnd,
   .italicsDelim, .italicsEnd, .capWord, .initialCap, .lowercase, .headerIntro, .h1, .h2, .h3,
   .spacing, .whitespace, .eol]

theorem mem_all (r : Rule) : r ∈ all := by cases r <;> decide

def name : Rule → String
  | .document => "document"
  | .block => "block"
  | .header => "header"
  | .paragraph => "paragraph"
  | .inlineContent => "inline_content"
  | .link => "link"
  | .text => "text"
  | .bold => "bold"
  | .boldContent => "bold_content"
  | .boldWithoutItalics => "bold_without_italics"
  | .boldWithoutItalicsContent => "bold_without_italics_content"
  | .italics => "italics"
  | .italicsContent => "italics_content"
  | .italicsWithoutBold => "italics_without_bold"
  | .italicsWithoutBoldContent => "italics_without_bold_content"
  | .nestedEnd => "nested_end"
  | .boldDelim => "bold_delim"
  | .boldEnd => "bold_end"
  | .italicsDelim => "italics_delim"
  | .italicsEnd => "italics_end"
  | .capWord => "cap_word"
  | .initialCap => "initial_cap"
  | .lowercase => "lowercase"
  | .headerIntro => "header_intro"
  | .h1 => "h1"
  | .h2 => "h2"
  | .h3 => "h3"
  | .spacing => "spacing"
  | .whitespace => "whitespace"
  | .eol => "eol"

def ofName? (name : String) : Option Rule := all.find? (·.name == name)

end Rule

end WikiMarkup
