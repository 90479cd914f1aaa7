/-!
# Matches

A match tells which text an expression saw, how many bytes it consumed, which node a grammar has
attached to it, and the matches of its parts. Nodes move up a match by being taken: a part whose
node has been taken is left without one.
-/

namespace WikiMarkup.Peg

/-- A successful application of an expression, with nodes of type `ν`. -/
structure Match (ν : Type) where
  text : String
  /-- Bytes of the input used up. -/
  consumed : Nat
  node : Option ν
  /-- The matches of the elements of a sequence or the rounds of a repetition, in input order. -/
  parts : List (Match ν)

namespace Match

variable {ν : Type}

/-- A match with no node and no parts. -/
def leaf (text : String) (consumed : Nat) : Match ν := ⟨text, consumed, none, []⟩

def empty : Match ν := leaf "" 0

def withoutNode (m : Match ν) : Match ν := { m with node := none }

/-- Take the node of one part. -/
def takePartNode (m : Match ν) (index : Nat) : Option ν × Match ν :=
  match m.parts[index]? with
  | none => (none, m)
  | some part => (part.node, { m with parts := m.parts.set index part.withoutNode })

/-- Take the nodes of all parts in order; parts without a node count for nothing. -/
def takePartNodes (m : Match ν) : List ν × Match ν :=
  (m.parts.filterMap node, { m with parts := m.parts.map withoutNode })

/-- Take the nodes of all parts of one part, if there is such a part. -/
def takeNestedNodes (m : Match ν) (index : Nat) : Option (List ν) × Match ν :=
  match m.parts[index]? with
  | none => (none, m)
  | some part =>
    let (nodes, part) := part.takePartNodes
    (some nodes, { m with parts := m.parts.set index part })

end Match

end WikiMarkup.Peg
