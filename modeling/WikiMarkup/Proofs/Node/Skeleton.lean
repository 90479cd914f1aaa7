import WikiMarkup.Proofs.Node.Container
import WikiMarkup.Proofs.Node.Text

/-!
# Preorder and skeletons

The nodes of a tree in document order, each before those below it, and the tree without the texts
of its leaves, which keeps the kinds of its nodes, the levels of its headers and who is whose child.
-/

namespace WikiMarkup

namespace Node

mutual

/-- The node and all nodes below it, in document order. -/
def preorder : Node → List Node
  | .text s => [.text s]
  | .link s => [.link s]
  | .bold cs => .bold cs :: allPreorder cs
  | .italics cs => .italics cs :: allPreorder cs
  | .header level cs => .header level cs :: allPreorder cs
  | .paragraph cs => .paragraph cs :: allPreorder cs
  | .document cs => .document cs :: allPreorder cs

/-- The nodes of trees one after another. -/
def allPreorder : List Node → List Node
  | [] => []
  | n :: ns => n.preorder ++ allPreorder ns

end

mutual

/-- The tree with empty leaves. -/
def skeleton : Node → Node
  | .text _ => .text ""
  | .link _ => .link ""
  | .bold cs => .bold (skeletons cs)
  | .italics cs => .italics (skeletons cs)
  | .header level cs => .header level (skeletons cs)
  | .paragraph cs => .paragraph (skeletons cs)
  | .document cs => .document (skeletons cs)

def skeletons : List Node → List Node
  | [] => []
  | n :: ns => n.skeleton :: skeletons ns

end

/-- No text of a leaf goes over a line end. -/
def LeavesInLine (n : Node) : Prop :=
  ∀ leaf ∈ n.preorder, ∀ s, leaf.leafText? = some s → '\n' ∉ s.toList

variable {n m : Node} {ns : List Node}

@[simp] theorem preorder_node (k : Container) (cs : List Node) :
    (k.node cs).preorder = k.node cs :: allPreorder cs := by
  cases k <;> rfl

@[simp] theorem skeleton_node (k : Container) (cs : List Node) :
    (k.node cs).skeleton = k.node (skeletons cs) := by
  cases k <;> rfl

theorem preorder_eq (n : Node) : n.preorder = n :: allPreorder n.children := by
  cases n <;> rfl

theorem mem_preorder_self (n : Node) : n ∈ n.preorder := by
  rw [preorder_eq]
  exact List.mem_cons_self

theorem mem_allPreorder : m ∈ allPreorder ns ↔ ∃ n ∈ ns, m ∈ n.preorder := by
  induction ns with
  | nil => simp [allPreorder]
  | cons n ns ih => simp [allPreorder, ih]

/-- What is below a node is below all nodes above it. -/
theorem mem_preorder_trans {leaf : Node} (hm : m ∈ n.preorder) (hleaf : leaf ∈ m.preorder) :
    leaf ∈ n.preorder := by
  induction n using inductionOn with
  | text s => exact List.mem_singleton.mp hm ▸ hleaf
  | link s => exact List.mem_singleton.mp hm ▸ hleaf
  | container k cs ih =>
    rw [preorder_node, List.mem_cons] at hm
    rcases hm with rfl | hbelow
    · exact hleaf
    · obtain ⟨c, hc, hmc⟩ := mem_allPreorder.mp hbelow
      have hleaf' := ih c hc hmc
      rw [preorder_node]
      exact List.mem_cons_of_mem _ (mem_allPreorder.mpr ⟨c, hc, hleaf'⟩)

theorem shown_node (k : Container) (cs : List Node) : (k.node cs).shown = allShown cs := by
  cases k <;> rfl

/-- A character that is shown stands in a leaf. -/
theorem exists_leaf_of_mem_shown {c : Char} (h : c ∈ n.shown) :
    ∃ leaf ∈ n.preorder, ∃ s, leaf.leafText? = some s ∧ c ∈ s.toList := by
  induction n using inductionOn with
  | text s => exact ⟨.text s, mem_preorder_self _, s, rfl, h⟩
  | link s => exact ⟨.link s, mem_preorder_self _, s, rfl, h⟩
  | container k cs ih =>
    rw [shown_node] at h
    obtain ⟨d, hd, hcd⟩ := mem_allShown.mp h
    obtain ⟨leaf, hleaf, hs⟩ := ih d hd hcd
    rw [preorder_node]
    exact ⟨leaf, List.mem_cons_of_mem _ (mem_allPreorder.mpr ⟨d, hd, hleaf⟩), hs⟩

/-- No node shows a line end if no leaf holds one. -/
theorem LeavesInLine.not_mem_shown (h : n.LeavesInLine) (hm : m ∈ n.preorder) :
    '\n' ∉ m.shown := by
  intro hlf
  obtain ⟨leaf, hleaf, s, hs, hmem⟩ := exists_leaf_of_mem_shown hlf
  exact h leaf (mem_preorder_trans hm hleaf) s hs hmem

end Node

end WikiMarkup
