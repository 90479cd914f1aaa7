import WikiMarkup.Node.Basic

/-!
# Visitors

A visitor says what happens to a state at each kind of node. The callback of a container is handed
the container's children and the walk over them, and decides whether and when to take it; by
default it takes the walk and does nothing else, so a visitor names only the kinds it cares about.
-/

namespace WikiMarkup

structure Visitor (σ : Type) where
  text : String → σ → σ := fun _ s => s
  link : String → σ → σ := fun _ s => s
  bold : List Node → (walk : σ → σ) → σ → σ := fun _ walk => walk
  italics : List Node → (walk : σ → σ) → σ → σ := fun _ walk => walk
  header : HeaderLevel → List Node → (walk : σ → σ) → σ → σ := fun _ _ walk => walk
  paragraph : List Node → (walk : σ → σ) → σ → σ := fun _ walk => walk
  document : List Node → (walk : σ → σ) → σ → σ := fun _ walk => walk

mutual

/-- Call the visitor at the node. -/
def Node.visit {σ : Type} (v : Visitor σ) : Node → σ → σ
  | .text s => v.text s
  | .link s => v.link s
  | .bold cs => v.bold cs (Node.visitAll v cs)
  | .italics cs => v.italics cs (Node.visitAll v cs)
  | .header level cs => v.header level cs (Node.visitAll v cs)
  | .paragraph cs => v.paragraph cs (Node.visitAll v cs)
  | .document cs => v.document cs (Node.visitAll v cs)

/-- Visit nodes in order. -/
def Node.visitAll {σ : Type} (v : Visitor σ) : List Node → σ → σ
  | [], s => s
  | n :: ns, s => Node.visitAll v ns (n.visit v s)

end

/-- What a visit to the leaves alone meets. -/
inductive Leaf where
  | text (text : String)
  | link (target : String)
deriving DecidableEq, Repr

namespace Node

/-- The leaves in the order of a visit. -/
def leaves (n : Node) : List Leaf :=
  let v : Visitor (List Leaf) :=
    { text := fun s seen => .text s :: seen, link := fun s seen => .link s :: seen }
  (n.visit v []).reverse

/-- The headers that a visit meets when it does not enter them: level and number of children. -/
def outerHeaders (n : Node) : List (HeaderLevel × Nat) :=
  let v : Visitor (List (HeaderLevel × Nat)) :=
    { header := fun level children _ seen => (level, children.length) :: seen }
  (n.visit v []).reverse

/-- What a visit meets on its way through the whole tree. -/
inductive Step where
  | leaf (leaf : Leaf)
  /-- A container is entered: its name and its number of children. -/
  | enter (name : String) (children : Nat)
  | leave (name : String)
deriving DecidableEq, Repr

/-- The steps through the whole tree. A header goes by the name of its HTML element. -/
def steps (n : Node) : List Step :=
  let around (name : String) (children : List Node) (walk : List Step → List Step)
      (seen : List Step) : List Step :=
    .leave name :: walk (.enter name children.length :: seen)
  let v : Visitor (List Step) :=
    { text := fun s seen => .leaf (.text s) :: seen
      link := fun s seen => .leaf (.link s) :: seen
      bold := around "bold"
      italics := around "italics"
      header := fun level => around level.tag
      paragraph := around "paragraph"
      document := around "document" }
  (n.visit v []).reverse

end Node

end WikiMarkup
