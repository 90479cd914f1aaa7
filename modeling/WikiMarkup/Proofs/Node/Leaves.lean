import Mathlib.Data.List.Basic
import WikiMarkup.Proofs.Node.Skeleton

/-!
# Leaves

A visitor that names texts and links only is led through all containers and meets the leaves of the
tree in document order. The text of a tree and the searches for its links come from passes of their
own, and these see the same leaves.
-/

namespace WikiMarkup

namespace Leaf

/-- What the leaf shows. -/
def label : Leaf → String
  | .text s => s
  | .link s => s

def isLink : Leaf → Bool
  | .text _ => false
  | .link _ => true

/-- What a visitor does at the leaf. -/
def meet {σ : Type} (text link : String → σ → σ) : Leaf → σ → σ
  | .text s => text s
  | .link s => link s

end Leaf

namespace Node

section Visits

variable {σ : Type} (text link : String → σ → σ)

/-- The visitor that names texts and links only. -/
def leafVisitor : Visitor σ := { text := text, link := link }

theorem visit_leafVisitor_node (k : Container) (cs : List Node) :
    (k.node cs).visit (leafVisitor text link) = visitAll (leafVisitor text link) cs := by
  cases k <;> rfl

theorem visitAll_eq_foldl (v : Visitor σ) (ns : List Node) (s : σ) :
    visitAll v ns s = ns.foldl (fun s n => n.visit v s) s := by
  induction ns generalizing s with
  | nil => rfl
  | cons n ns ih => exact ih (n.visit v s)

end Visits

/-- The visitor that gathers the leaves, the latest first. -/
def leafCollector : Visitor (List Leaf) :=
  leafVisitor (fun s seen => .text s :: seen) (fun s seen => .link s :: seen)

theorem visitAll_leafCollector {ns : List Node}
    (h : ∀ n ∈ ns, ∀ seen, n.visit leafCollector seen = n.leaves.reverse ++ seen)
    (seen : List Leaf) :
    visitAll leafCollector ns seen = (ns.flatMap leaves).reverse ++ seen := by
  induction ns generalizing seen with
  | nil => rfl
  | cons n ns ih =>
    have hrest := ih (fun m hm => h m (List.mem_cons_of_mem n hm)) (n.visit leafCollector seen)
    rw [visitAll, hrest, h n (List.mem_cons_self ..), List.flatMap_cons, List.reverse_append,
      List.append_assoc]

/-- A visit puts the leaves of the tree before those that it has met. -/
theorem visit_leafCollector (n : Node) :
    ∀ seen, n.visit leafCollector seen = n.leaves.reverse ++ seen := by
  induction n using inductionOn with
  | text s => exact fun seen => rfl
  | link s => exact fun seen => rfl
  | container k cs ih =>
    intro seen
    have hleaves : (k.node cs).leaves = ((k.node cs).visit leafCollector []).reverse := rfl
    have hvisit : (k.node cs).visit leafCollector = visitAll leafCollector cs :=
      visit_leafVisitor_node ..
    rw [hleaves, hvisit, visitAll_leafCollector ih, visitAll_leafCollector ih, List.append_nil,
      List.reverse_reverse]

@[simp] theorem leaves_text (s : String) : (text s).leaves = [.text s] := rfl

@[simp] theorem leaves_link (s : String) : (link s).leaves = [.link s] := rfl

@[simp] theorem leaves_node (k : Container) (cs : List Node) :
    (k.node cs).leaves = cs.flatMap leaves := by
  have hvisit : (k.node cs).visit leafCollector = visitAll leafCollector cs :=
    visit_leafVisitor_node ..
  have hleaves := visit_leafCollector (k.node cs) []
  rw [hvisit, visitAll_leafCollector fun c _ => visit_leafCollector c, List.append_nil,
    List.append_nil] at hleaves
  exact (List.reverse_inj.mp hleaves).symm

/-- Whatever a visitor does at texts and links, a visit does it at the leaves in order. -/
theorem visit_leafVisitor {σ : Type} (text link : String → σ → σ) (n : Node) : ∀ s,
    n.visit (leafVisitor text link) s = n.leaves.foldl (fun s leaf => leaf.meet text link s) s := by
  induction n using inductionOn with
  | text s => exact fun s => rfl
  | link s => exact fun s => rfl
  | container k cs ih =>
    intro s
    rw [visit_leafVisitor_node, visitAll_eq_foldl, leaves_node, List.foldl_flatMap]
    exact List.foldl_ext _ _ s fun s c hc => ih c hc s

/-! ## Passes that are no visits -/

/-- The tree shows what its leaves show. -/
theorem shown_eq_flatMap_leaves (n : Node) : n.shown = n.leaves.flatMap (·.label.toList) := by
  induction n using inductionOn with
  | text s => exact (List.append_nil _).symm
  | link s => exact (List.append_nil _).symm
  | container k cs ih =>
    rw [shown_node, allShown_eq_flatMap, leaves_node, List.flatMap_assoc]
    exact List.flatMap_congr ih

/-- A search that looks at the children of containers one by one looks at the leaves. -/
theorem eq_any_leaves {search : Node → Bool} {p : Leaf → Bool}
    (htext : ∀ s, search (.text s) = p (.text s)) (hlink : ∀ s, search (.link s) = p (.link s))
    (hnode : ∀ k cs, search (Container.node k cs) = cs.any search) (n : Node) :
    search n = n.leaves.any p := by
  induction n using inductionOn with
  | text s => rw [htext, leaves_text, List.any_cons, List.any_nil, Bool.or_false]
  | link s => rw [hlink, leaves_link, List.any_cons, List.any_nil, Bool.or_false]
  | container k cs ih =>
    rw [hnode, leaves_node, List.any_flatMap, Bool.eq_iff_iff, List.any_eq_true, List.any_eq_true]
    exact exists_congr fun c => and_congr_right fun hc => by rw [ih c hc]

theorem anyHasLink_eq_any (target : String) (ns : List Node) :
    anyHasLink target ns = ns.any (hasLink target) := by
  induction ns with
  | nil => rfl
  | cons n ns ih => rw [anyHasLink, ih, List.any_cons]

theorem anyHasSomeLink_eq_any (ns : List Node) : anyHasSomeLink ns = ns.any hasSomeLink := by
  induction ns with
  | nil => rfl
  | cons n ns ih => rw [anyHasSomeLink, ih, List.any_cons]

/-- The search for a link to the target finds one exactly if it is a leaf. -/
theorem hasLink_iff_mem_leaves (target : String) (n : Node) :
    n.hasLink target = true ↔ .link target ∈ n.leaves := by
  have hsearch : n.hasLink target = n.leaves.any (· == .link target) := by
    apply eq_any_leaves
    · intro s
      rfl
    · intro s
      rw [hasLink, Bool.eq_iff_iff, beq_iff_eq, beq_iff_eq, Leaf.link.injEq]
    · intro k cs
      rw [← anyHasLink_eq_any]
      cases k <;> rfl
  rw [hsearch, List.any_beq', List.contains_iff_mem]

/-- The search for any link finds one exactly if some leaf is a link. -/
theorem hasSomeLink_iff_mem_leaves (n : Node) :
    n.hasSomeLink = true ↔ ∃ target, .link target ∈ n.leaves := by
  have hsearch : n.hasSomeLink = n.leaves.any Leaf.isLink := by
    apply eq_any_leaves
    · intro s
      rfl
    · intro s
      rfl
    · intro k cs
      rw [← anyHasSomeLink_eq_any]
      cases k <;> rfl
  rw [hsearch, List.any_eq_true]
  constructor
  · rintro ⟨_ | target, hmem, hlink⟩
    · cases hlink
    · exact ⟨target, hmem⟩
  · rintro ⟨target, hmem⟩
    exact ⟨.link target, hmem, rfl⟩

end Node

end WikiMarkup
