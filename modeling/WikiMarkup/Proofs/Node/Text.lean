import WikiMarkup.Node.Basic

/-!
# What a tree shows

The text of a tree is written leaf by leaf onto an output. Here it is a list of characters that
depends on the tree alone.
-/

namespace WikiMarkup

namespace Node

mutual

/-- The characters of the leaves, in order. -/
def shown : Node → List Char
  | .text s => s.toList
  | .link s => s.toList
  | .bold cs => allShown cs
  | .italics cs => allShown cs
  | .header _ cs => allShown cs
  | .paragraph cs => allShown cs
  | .document cs => allShown cs

/-- The characters of nodes one after another. -/
def allShown : List Node → List Char
  | [] => []
  | n :: ns => n.shown ++ allShown ns

end

theorem allShown_eq_flatMap (ns : List Node) : allShown ns = ns.flatMap shown := by
  induction ns with
  | nil => rfl
  | cons n ns ih => rw [allShown, ih, List.flatMap_cons]

@[simp] theorem allShown_append (xs ys : List Node) :
    allShown (xs ++ ys) = allShown xs ++ allShown ys := by
  simp only [allShown_eq_flatMap, List.flatMap_append]

@[simp] theorem allShown_singleton (n : Node) : allShown [n] = n.shown := List.append_nil _

theorem mem_allShown {c : Char} {ns : List Node} : c ∈ allShown ns ↔ ∃ n ∈ ns, c ∈ n.shown := by
  rw [allShown_eq_flatMap, List.mem_flatMap]

mutual

/-- Writing the text of a tree adds what the tree shows. -/
theorem appendText_eq (out : String) : ∀ n : Node, n.appendText out = out ++ String.ofList n.shown
  | .text s => by rw [appendText, shown, String.ofList_toList]
  | .link s => by rw [appendText, shown, String.ofList_toList]
  | .bold cs => appendTexts_eq out cs
  | .italics cs => appendTexts_eq out cs
  | .header _ cs => appendTexts_eq out cs
  | .paragraph cs => appendTexts_eq out cs
  | .document cs => appendTexts_eq out cs

theorem appendTexts_eq (out : String) :
    ∀ ns : List Node, appendTexts ns out = out ++ String.ofList (allShown ns)
  | [] => by rw [appendTexts, allShown, String.ofList_nil, String.append_empty]
  | n :: ns => by
    rw [appendTexts, appendText_eq out n, appendTexts_eq _ ns, allShown, String.ofList_append,
      String.append_assoc]

end

theorem plainText_eq (n : Node) : n.plainText = String.ofList n.shown := by
  rw [plainText, appendText_eq, String.empty_append]

end Node

end WikiMarkup
