import WikiMarkup.Node.Visitor

/-!
# Containers

A node is a text, a link or a container with children. There are five kinds of container, which most
functions on trees treat alike; `Container` is what tells them apart, so that a fact about all of
them is stated once. A place in a tree is given by the containers around it.
-/

namespace WikiMarkup

/-- What a container is, apart from its children. -/
inductive Container where
  | bold
  | italics
  | header (level : HeaderLevel)
  | paragraph
  | document
deriving DecidableEq, Repr

namespace Container

def all : List Container :=
  [.bold, .italics, .header .h1, .header .h2, .header .h3, .paragraph, .document]

theorem mem_all (k : Container) : k ∈ all := by
  rcases k with _ | _ | (_ | _ | _) | _ | _ <;> decide

/-- What can be checked of the containers one by one holds of them all. -/
@[elab_as_elim]
theorem forall_of_mem_all {P : Container → Prop} (h : ∀ k ∈ all, P k) (k : Container) : P k :=
  h k k.mem_all

/-- The container with these children. -/
def node : Container → List Node → Node
  | .bold, cs => .bold cs
  | .italics, cs => .italics cs
  | .header level, cs => .header level cs
  | .paragraph, cs => .paragraph cs
  | .document, cs => .document cs

@[simp] theorem children_node (k : Container) (cs : List Node) : (k.node cs).children = cs := by
  cases k <;> rfl

end Container

namespace Node

/-- Induction over a tree, with one case for all containers. -/
@[elab_as_elim]
theorem inductionOn {P : Node → Prop} (n : Node) (text : ∀ s, P (.text s))
    (link : ∀ s, P (.link s))
    (container : ∀ (k : Container) (cs : List Node), (∀ c ∈ cs, P c) → P (k.node cs)) : P n :=
  match n with
  | .text s => text s
  | .link s => link s
  | .bold cs => container .bold cs fun c _ => inductionOn c text link container
  | .italics cs => container .italics cs fun c _ => inductionOn c text link container
  | .header level cs => container (.header level) cs fun c _ => inductionOn c text link container
  | .paragraph cs => container .paragraph cs fun c _ => inductionOn c text link container
  | .document cs => container .document cs fun c _ => inductionOn c text link container

/-- A container around a place, with the siblings of what stands there. -/
structure Enclosure where
  container : Container
  before : List Node
  after : List Node

/-- Put a node at the place. -/
def Enclosure.around (e : Enclosure) (n : Node) : Node :=
  e.container.node (e.before ++ n :: e.after)

/-- Every child of a node stands in an enclosure. -/
theorem exists_around_eq {n c : Node} (h : c ∈ n.children) :
    ∃ e : Enclosure, e.around c = n := by
  obtain ⟨before, after, hchildren⟩ := List.append_of_mem h
  have hplace (k : Container) : (Enclosure.mk k before after).around c = k.node n.children :=
    congrArg k.node hchildren.symm
  cases n with
  | text s => exact absurd h List.not_mem_nil
  | link s => exact absurd h List.not_mem_nil
  | bold cs => exact ⟨_, hplace .bold⟩
  | italics cs => exact ⟨_, hplace .italics⟩
  | header level cs => exact ⟨_, hplace (.header level)⟩
  | paragraph cs => exact ⟨_, hplace .paragraph⟩
  | document cs => exact ⟨_, hplace .document⟩

/-- The tree with a node inside these containers, the innermost first. There are as many of them as
the node lies deep. -/
def enclosed (es : List Enclosure) (n : Node) : Node := es.foldl (fun n e => e.around n) n

@[simp] theorem enclosed_nil (n : Node) : enclosed [] n = n := rfl

@[simp] theorem enclosed_cons (e : Enclosure) (es : List Enclosure) (n : Node) :
    enclosed (e :: es) n = enclosed es (e.around n) := rfl

end Node

end WikiMarkup
