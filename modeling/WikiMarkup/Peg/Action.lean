import WikiMarkup.Peg.Expr
import WikiMarkup.Decimal.Integer

/-!
# Actions

Grammars that are put together at run time name their transforms by a list of actions. An action
gives the match a node, made from its text, its number of parts or the nodes of its parts, or drops
its parts, or reports its text under a tag. The actions of a list run in order on one match.
-/

namespace WikiMarkup.Peg

/-- How nodes of type `ν` are made of texts, numbers and lists of nodes. -/
structure NodeMaker (ν : Type) where
  text : String → ν
  number : Int → ν
  list : List ν → ν

/-- What to do with a match whose nodes have type `ν`; reports have tags of type `τ`. -/
inductive Action (ν τ : Type) where
  /-- The text of the match. -/
  | text
  | const (node : ν)
  /-- The text read as a signed integer of 64 bits, if it is one. -/
  | number
  /-- The number of parts. -/
  | count
  /-- The node of one part, if it has one. -/
  | take (index : Nat)
  /-- The nodes of all parts. -/
  | takeAll
  /-- The nodes of all parts of one part. -/
  | takeNested (index : Nat)
  | clearParts
  | report (tag : τ)

namespace Action

variable {ν τ : Type}

/-- Run one action; events are pairs of a tag and a text. -/
def run (make : NodeMaker ν) (m : Match ν) : Action ν τ → Match ν × List (τ × String)
  | .text => ({ m with node := some (make.text m.text) }, [])
  | .const node => ({ m with node := some node }, [])
  | .number => ({ m with node := (Decimal.int64OfString? m.text).map make.number }, [])
  | .count => ({ m with node := some (make.number m.parts.length) }, [])
  | .take index =>
    let (node, m) := m.takePartNode index
    ({ m with node }, [])
  | .takeAll =>
    let (nodes, m) := m.takePartNodes
    ({ m with node := some (make.list nodes) }, [])
  | .takeNested index =>
    let (nodes, m) := m.takeNestedNodes index
    ({ m with node := nodes.map make.list }, [])
  | .clearParts => ({ m with parts := [] }, [])
  | .report tag => (m, [(tag, m.text)])

/-- Run actions in order. -/
def runAll (make : NodeMaker ν) : List (Action ν τ) → Transform ν (τ × String)
  | [], m => (m, [])
  | action :: actions, m =>
    let (m, events) := action.run make m
    let (m, more) := runAll make actions m
    (m, events ++ more)

end Action

end WikiMarkup.Peg
