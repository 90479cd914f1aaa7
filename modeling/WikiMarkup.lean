import WikiMarkup.Main
import WikiMarkup.Node.Expectation
import WikiMarkup.Peg.Action
import WikiMarkup.Proofs.Cli.Outcome
import WikiMarkup.Proofs.Cursor.Position
import WikiMarkup.Proofs.Format.HtmlText
import WikiMarkup.Proofs.Format.Json
import WikiMarkup.Proofs.Format.Outline
import WikiMarkup.Proofs.Format.Tag
import WikiMarkup.Proofs.Inline.Line
import WikiMarkup.Proofs.Inline.Paragraph
import WikiMarkup.Proofs.Page.Blocks
import WikiMarkup.Proofs.Page.Compose
import WikiMarkup.Proofs.Page.EndOfText
import WikiMarkup.Proofs.Page.Failure
import WikiMarkup.Proofs.Page.Html
import WikiMarkup.Proofs.Page.LastDelimiter
import WikiMarkup.Proofs.Page.LineEnds
import WikiMarkup.Proofs.Page.RoundTrip
import WikiMarkup.Proofs.Page.Shape
import WikiMarkup.Proofs.Page.Swap
import WikiMarkup.Proofs.Page.Text
import WikiMarkup.Proofs.Peg.Place
import WikiMarkup.Proofs.Peg.Repetition
import WikiMarkup.Proofs.Rules.Termination
import WikiMarkup.Proofs.Rules.WikiWord
import WikiMarkup.Proofs.Settings.Layers
import WikiMarkup.Regex.Source
