import WikiMarkup.Node.Visitor

/-!
# HTML

Each node is one element: `b` and `i` for spans, `h1` to `h3` for headers, `p` for paragraphs, `div`
for a document, and `a` for links. Fragments are handed to a sink as soon as they are known.
Texts are written as they are: nothing is escaped.
-/

namespace WikiMarkup.Format

/-- The visitor that hands the fragments of each element to a sink. -/
def htmlEmitter {σ : Type} (sink : String → σ → σ) : Visitor σ :=
  let all (fragments : List String) (s : σ) : σ := fragments.foldl (fun s f => sink f s) s
  let element (name : String) (_ : List Node) (walk : σ → σ) (s : σ) : σ :=
    all ["</", name, ">"] (walk (all ["<", name, ">"] s))
  { text := sink
    link := fun target => all ["<a href='", target, "'>", target, "</a>"]
    bold := element "b"
    italics := element "i"
    header := fun level => element level.tag
    paragraph := element "p"
    document := element "div" }

/-- Hand the fragments of a tree's HTML to a sink, in order. -/
def renderHtml {σ : Type} (sink : String → σ → σ) (n : Node) (s : σ) : σ :=
  n.visit (htmlEmitter sink) s

def html (n : Node) : String := renderHtml (fun fragment out => out ++ fragment) n ""

def htmlFragments (n : Node) : List String :=
  (renderHtml (fun fragment seen => fragment :: seen) n []).reverse

end WikiMarkup.Format
