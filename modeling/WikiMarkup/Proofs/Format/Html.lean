import WikiMarkup.Format.Html
import WikiMarkup.Proofs.Format.Element
import WikiMarkup.Proofs.Node.Container
import WikiMarkup.Proofs.Node.Leaves
import WikiMarkup.Proofs.Node.Shape

/-!
# Reading HTML back

Nothing is escaped in HTML, so different trees may have the same HTML. A tree can be read back from
it if its texts begin no tag, its links end none, no text is empty and no two texts stand side by
side: every run of characters between tags is then one text.
-/

namespace WikiMarkup.Format

open Node

/-! ## Trees as items -/

/-- The name of a container's element. -/
def htmlName : Container → String
  | .bold => "b"
  | .italics => "i"
  | .header level => level.tag
  | .paragraph => "p"
  | .document => "div"

/-- What stands before the target in a link's opening tag. -/
def linkStart : List Char := ['a', ' ', 'h', 'r', 'e', 'f', '=', '\'']

/-- The inside of a link's opening tag. -/
def linkTag (target : List Char) : List Char := linkStart ++ (target ++ ['\''])

theorem nameOf_linkTag (target : List Char) : Item.nameOf (linkTag target) = ['a'] := rfl

mutual

/-- The HTML of a tree. -/
def htmlItems : Node → List Item
  | .text s => Item.ofChars s.toList
  | .link s => [.element (linkTag s.toList) (Item.ofChars s.toList)]
  | .bold cs => [.element (htmlName .bold).toList (allHtmlItems cs)]
  | .italics cs => [.element (htmlName .italics).toList (allHtmlItems cs)]
  | .header level cs => [.element (htmlName (.header level)).toList (allHtmlItems cs)]
  | .paragraph cs => [.element (htmlName .paragraph).toList (allHtmlItems cs)]
  | .document cs => [.element (htmlName .document).toList (allHtmlItems cs)]

/-- The HTML of trees one after another. -/
def allHtmlItems : List Node → List Item
  | [] => []
  | n :: ns => htmlItems n ++ allHtmlItems ns

end

theorem allHtmlItems_eq_flatMap (ns : List Node) : allHtmlItems ns = ns.flatMap htmlItems := by
  induction ns with
  | nil => rfl
  | cons n ns ih => rw [allHtmlItems, ih, List.flatMap_cons]

theorem htmlItems_node (k : Container) (cs : List Node) :
    htmlItems (k.node cs) = [.element (htmlName k).toList (allHtmlItems cs)] := by
  cases k <;> rfl

theorem nameOf_htmlName (k : Container) :
    Item.nameOf (htmlName k).toList = (htmlName k).toList :=
  Container.forall_of_mem_all (by decide) k

/-! ## What a visit writes -/

/-- The visitor that adds every fragment to an output. -/
def htmlWriter : Visitor String := htmlEmitter fun fragment out => out ++ fragment

theorem visit_htmlWriter_link (s out : String) :
    (Node.link s).visit htmlWriter out =
      out ++ "<a href='" ++ s ++ "'>" ++ s ++ "</a>" := rfl

theorem visit_htmlWriter_node (k : Container) (cs : List Node) (out : String) :
    (k.node cs).visit htmlWriter out =
      visitAll htmlWriter cs (out ++ "<" ++ htmlName k ++ ">") ++ "</" ++ htmlName k ++ ">" := by
  cases k <;> rfl

theorem visitAll_htmlWriter {ns : List Node}
    (h : ∀ n ∈ ns, ∀ out,
      n.visit htmlWriter out = out ++ String.ofList (Item.allChars (htmlItems n)))
    (out : String) :
    visitAll htmlWriter ns out = out ++ String.ofList (Item.allChars (allHtmlItems ns)) := by
  induction ns generalizing out with
  | nil => simp [visitAll, allHtmlItems, Item.allChars]
  | cons n ns ih =>
    have hrest := ih fun m hm => h m (List.mem_cons_of_mem n hm)
    rw [visitAll, h n (List.mem_cons_self ..), hrest, allHtmlItems, Item.allChars_append,
      String.ofList_append, String.append_assoc]

/-- A visit adds the HTML of the tree to the output. -/
theorem visit_htmlWriter (n : Node) : ∀ out,
    n.visit htmlWriter out = out ++ String.ofList (Item.allChars (htmlItems n)) := by
  induction n using Node.inductionOn with
  | text s =>
    intro out
    rw [htmlItems, Item.allChars_ofChars, String.ofList_toList]
    rfl
  | link s =>
    intro out
    apply String.toList_injective
    rw [visit_htmlWriter_link, htmlItems, Item.allChars_singleton, Item.chars, nameOf_linkTag]
    simp [linkTag, linkStart]
  | container k cs ih =>
    intro out
    apply String.toList_injective
    rw [visit_htmlWriter_node, visitAll_htmlWriter ih, htmlItems_node, Item.allChars_singleton,
      Item.chars, nameOf_htmlName]
    simp

theorem toList_html (n : Node) : (html n).toList = Item.allChars (htmlItems n) := by
  have hvisit : html n = n.visit htmlWriter "" := rfl
  rw [hvisit, visit_htmlWriter]
  simp

/-! ## Reading -/

/-- The container that a name stands for. -/
def containerOfName? (name : List Char) : Option Container :=
  Container.all.find? fun k => (htmlName k).toList == name

theorem containerOfName?_htmlName (k : Container) :
    containerOfName? (htmlName k).toList = some k :=
  Container.forall_of_mem_all (by decide) k

/-- Put a node before others. A text becomes one with a text that follows. -/
def joined : Node → List Node → List Node
  | .text s, .text s' :: ns => .text (s ++ s') :: ns
  | n, ns => n :: ns

mutual

/-- The tree of an item. -/
def htmlNode? : Item → Option Node
  | .char c => some (.text (String.singleton c))
  | .element tag is =>
    match containerOfName? tag with
    | some k => (htmlNodes? is).map k.node
    | none =>
      if linkStart.isPrefixOf tag then
        some (.link (String.ofList (tag.drop linkStart.length).dropLast))
      else none

/-- The trees of items one after another. -/
def htmlNodes? : List Item → Option (List Node)
  | [] => some []
  | i :: is => (htmlNode? i).bind fun n => (htmlNodes? is).map (joined n)

end

/-- The tree of an HTML text that is one element. -/
def readHtml? (text : String) : Option Node :=
  match (TagReader.readItems? text.toList).bind htmlNodes? with
  | some [n] => some n
  | _ => none

theorem joined_text_joined (s s' : String) (ns : List Node) :
    joined (.text s) (joined (.text s') ns) = joined (.text (s ++ s')) ns := by
  cases ns with
  | nil => rfl
  | cons n ns => cases n <;> simp [joined, String.append_assoc]

theorem joined_nil (n : Node) : joined n [] = [n] := by
  cases n <;> rfl

theorem joined_eq_cons {n : Node} {ns : List Node} (h : ∀ m ∈ ns.head?, Apart n m) :
    joined n ns = n :: ns := by
  cases ns with
  | nil => exact joined_nil n
  | cons m ns =>
    have hapart := h m rfl
    cases n <;> cases m <;> simp_all [joined, Apart, kind]

/-! ## Trees that can be read back -/

/-- The HTML of the tree tells its texts from one another and from its tags. -/
inductive IsLegible : Node → Prop where
  | text {s : String} : s ≠ "" → '<' ∉ s.toList → IsLegible (.text s)
  | link {s : String} : '<' ∉ s.toList → '>' ∉ s.toList → IsLegible (.link s)
  | container {k : Container} {cs : List Node} : (∀ c ∈ cs, IsLegible c) → cs.IsChain Apart →
    IsLegible (k.node cs)

theorem htmlNodes?_cons (i : Item) (is : List Item) : htmlNodes? (i :: is) =
    (htmlNode? i).bind fun n => (htmlNodes? is).map (joined n) := by
  rw [htmlNodes?]

/-- The characters of a text are read as one text. -/
theorem htmlNodes?_ofChars_append (c : Char) (cs : List Char) (is : List Item) :
    htmlNodes? (Item.ofChars (c :: cs) ++ is) =
      (htmlNodes? is).map (joined (.text (String.ofList (c :: cs)))) := by
  induction cs generalizing c with
  | nil => exact htmlNodes?_cons (.char c) is
  | cons d cs ih =>
    have hsplit : String.ofList (c :: d :: cs) = String.singleton c ++ String.ofList (d :: cs) :=
      String.ofList_cons
    have hcons : Item.ofChars (c :: d :: cs) ++ is =
        .char c :: (Item.ofChars (d :: cs) ++ is) := rfl
    have hnode : htmlNode? (.char c) = some (.text (String.singleton c)) := by rw [htmlNode?]
    rw [hcons, htmlNodes?_cons, hnode, Option.bind_some, ih, hsplit, Option.map_map]
    congr 1
    funext ns
    exact joined_text_joined _ _ ns

theorem htmlNode?_link (s : String) :
    htmlNode? (.element (linkTag s.toList) (Item.ofChars s.toList)) = some (.link s) := by
  have hcontainer : containerOfName? (linkTag s.toList) = none := rfl
  have hstart : linkStart.isPrefixOf (linkTag s.toList) := by simp [linkTag]
  have htarget : ((linkTag s.toList).drop linkStart.length).dropLast = s.toList := by
    rw [linkTag, List.drop_left, List.dropLast_concat]
  rw [htmlNode?, hcontainer]
  simp [hstart, htarget]

theorem htmlNode?_container (k : Container) (is : List Item) :
    htmlNode? (.element (htmlName k).toList is) = (htmlNodes? is).map k.node := by
  rw [htmlNode?, containerOfName?_htmlName]

/-- Siblings are read one by one if none of them joins the next. -/
theorem htmlNodes?_allHtmlItems {ns : List Node}
    (h : ∀ n ∈ ns, ∀ is, htmlNodes? (htmlItems n ++ is) = (htmlNodes? is).map (joined n))
    (hchain : ns.IsChain Apart) : htmlNodes? (allHtmlItems ns) = some ns := by
  induction ns with
  | nil => rfl
  | cons n ns ih =>
    obtain ⟨hhead, hchain⟩ := List.isChain_cons.mp hchain
    have hrest := ih (fun m hm => h m (List.mem_cons_of_mem n hm)) hchain
    rw [allHtmlItems, h n (List.mem_cons_self ..), hrest, Option.map_some, joined_eq_cons hhead]

/-- A legible tree is read as itself, but that a text joins a text that follows. -/
theorem htmlNodes?_htmlItems_append {n : Node} (h : IsLegible n) :
    ∀ is, htmlNodes? (htmlItems n ++ is) = (htmlNodes? is).map (joined n) := by
  induction h with
  | @text s hne _ =>
    intro is
    obtain ⟨c, cs, hs⟩ := List.exists_cons_of_ne_nil (mt String.toList_eq_nil_iff.mp hne)
    rw [htmlItems, hs, htmlNodes?_ofChars_append, ← hs, String.ofList_toList]
  | @link s _ _ =>
    intro is
    rw [htmlItems, List.singleton_append, htmlNodes?_cons, htmlNode?_link, Option.bind_some]
  | @container k cs _ hchain ih =>
    intro is
    rw [htmlItems_node, List.singleton_append, htmlNodes?_cons, htmlNode?_container,
      htmlNodes?_allHtmlItems ih hchain, Option.map_some, Option.bind_some]

/-- The tags of the HTML can be told from the rest if no leaf begins a tag and no link ends one. -/
theorem legible_htmlItems_of_leaves {n : Node}
    (hlt : ∀ leaf ∈ n.leaves, '<' ∉ leaf.label.toList)
    (hgt : ∀ target, Leaf.link target ∈ n.leaves → '>' ∉ target.toList) :
    ∀ i ∈ htmlItems n, i.Legible := by
  induction n using Node.inductionOn with
  | text s => exact Item.legible_ofChars (hlt (.text s) (List.mem_cons_self ..))
  | link s =>
    have hopening : (linkTag s.toList).head? ≠ some '/' := by simp [linkTag, linkStart]
    have htag : '>' ∉ linkTag s.toList := by
      simp [linkTag, linkStart, hgt s (List.mem_cons_self ..)]
    have hlabel := Item.legible_ofChars (hlt (.link s) (List.mem_cons_self ..))
    exact List.forall_mem_singleton.mpr (.element hopening htag hlabel)
  | container k cs ih =>
    have hopening : (htmlName k).toList.head? ≠ some '/' :=
      Container.forall_of_mem_all (by decide) k
    have htag : '>' ∉ (htmlName k).toList := Container.forall_of_mem_all (by decide) k
    rw [leaves_node] at hlt hgt
    rw [htmlItems_node]
    refine List.forall_mem_singleton.mpr (.element hopening htag ?_)
    intro i hi
    rw [allHtmlItems_eq_flatMap, List.mem_flatMap] at hi
    obtain ⟨c, hc, hi⟩ := hi
    apply ih c hc
    · exact fun leaf hleaf => hlt leaf (List.mem_flatMap.mpr ⟨c, hc, hleaf⟩)
    · exact fun target hleaf => hgt target (List.mem_flatMap.mpr ⟨c, hc, hleaf⟩)
    · exact hi

theorem IsLegible.leaves {n : Node} (h : IsLegible n) :
    (∀ leaf ∈ n.leaves, '<' ∉ leaf.label.toList) ∧
      ∀ target, Leaf.link target ∈ n.leaves → '>' ∉ target.toList := by
  induction h with
  | text _ hlt => exact ⟨List.forall_mem_singleton.mpr hlt, by simp⟩
  | link hlt hgt => exact ⟨List.forall_mem_singleton.mpr hlt, by simpa using hgt⟩
  | @container k cs _ _ ih =>
    rw [leaves_node]
    constructor
    · intro leaf hleaf
      obtain ⟨c, hc, hleaf⟩ := List.mem_flatMap.mp hleaf
      exact (ih c hc).1 leaf hleaf
    · intro target hleaf
      obtain ⟨c, hc, hleaf⟩ := List.mem_flatMap.mp hleaf
      exact (ih c hc).2 target hleaf

/-- A legible tree can be read back from its HTML. -/
theorem readHtml?_html {n : Node} (h : IsLegible n) : readHtml? (html n) = some n := by
  have hlegible := legible_htmlItems_of_leaves h.leaves.1 h.leaves.2
  have hitems := TagReader.readItems?_allChars hlegible
  have hnodes : htmlNodes? (htmlItems n) = some [n] := by
    have happend := htmlNodes?_htmlItems_append h []
    rw [List.append_nil] at happend
    rw [happend, htmlNodes?, Option.map_some, joined_nil]
  rw [readHtml?, toList_html, hitems, Option.bind_some, hnodes]

end WikiMarkup.Format
