import WikiMarkup.Page.Parse
import WikiMarkup.Format.Html

/-!
# Processing pages under a limit

A processor refuses markup that is over its limit before reading it, and turns the rest into trees
or into HTML.
-/

namespace WikiMarkup

namespace Page

def toHtml (markup : String) : Except ParseFailure String := (parse markup).map Format.html

end Page

/-- The HTML of a page, under the page's name. -/
structure RenderedPage where
  name : String
  html : String
deriving DecidableEq, Repr

structure Processor where
  /-- The most bytes that markup may have; no limit if zero. -/
  maxInputBytes : Nat := 262144
deriving DecidableEq, Repr

namespace Processor

def checkSize (p : Processor) (markup : String) : Except ParseFailure Unit :=
  if 0 < p.maxInputBytes ∧ p.maxInputBytes < markup.utf8ByteSize then
    .error (.tooLarge markup.utf8ByteSize p.maxInputBytes)
  else .ok ()

def parse (p : Processor) (markup : String) : Except ParseFailure Node :=
  match p.checkSize markup with
  | .ok () => Page.parse markup
  | .error e => .error e

def toHtml (p : Processor) (markup : String) : Except ParseFailure String :=
  (p.parse markup).map Format.html

def renderPage (p : Processor) (name markup : String) : Except ParseFailure RenderedPage :=
  (p.toHtml markup).map fun html => ⟨name, html⟩

end Processor

end WikiMarkup
