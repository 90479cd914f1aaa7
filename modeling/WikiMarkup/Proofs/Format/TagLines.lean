import WikiMarkup.Proofs.Format.Element
import WikiMarkup.Proofs.Format.Escape
import WikiMarkup.Proofs.Node.Container

/-!
# The lines of a tree in tags

What the writer of tags puts out for a tree depends on the tree and the level alone: one line for a
leaf or an empty container, and for any other container its two tags on lines around the lines of
its children. Afterwards the writer is at the level at which it was.
-/

namespace WikiMarkup.Format

/-! ## Trees as items -/

/-- The name of a container's element. -/
def containerName : Container → String
  | .bold => "bold"
  | .italics => "italics"
  | .header _ => "header"
  | .paragraph => "paragraph"
  | .document => "document"

/-- What follows the name in the opening tag. -/
def containerAttributes : Container → String
  | .header .h1 => " level=\"1\""
  | .header .h2 => " level=\"2\""
  | .header .h3 => " level=\"3\""
  | _ => ""

/-- The inside of a container's opening tag. -/
def containerTag (k : Container) : List Char :=
  (containerName k).toList ++ (containerAttributes k).toList

theorem nameOf_containerTag (k : Container) :
    Item.nameOf (containerTag k) = (containerName k).toList :=
  Container.forall_of_mem_all (by decide) k

/-- The blanks before what stands at a depth. -/
def indent (depth : Nat) : List Char := List.replicate (2 * depth) ' '

/-- A line with an element at a depth. -/
def lineItems (depth : Nat) (i : Item) : List Item :=
  Item.ofChars (indent depth) ++ [i, .char '\n']

/-- The lines between the tags of a container, if there are any. -/
def innerLines (depth : Nat) : List Item → List Item
  | [] => []
  | i :: is => .char '\n' :: (i :: is ++ Item.ofChars (indent depth))

def leafItem (name text : String) : Item :=
  .element name.toList (Item.ofChars (escaped text.toList))

def containerItem (depth : Nat) (k : Container) (lines : List Item) : Item :=
  .element (containerTag k) (innerLines depth lines)

mutual

/-- The lines of a tree whose root stands at a depth. -/
def tagItems : Node → (depth : Nat) → List Item
  | .text s, depth => lineItems depth (leafItem "text" s)
  | .link s, depth => lineItems depth (leafItem "link" s)
  | .bold cs, depth => lineItems depth (containerItem depth .bold (allTagItems cs (depth + 1)))
  | .italics cs, depth =>
    lineItems depth (containerItem depth .italics (allTagItems cs (depth + 1)))
  | .header level cs, depth =>
    lineItems depth (containerItem depth (.header level) (allTagItems cs (depth + 1)))
  | .paragraph cs, depth =>
    lineItems depth (containerItem depth .paragraph (allTagItems cs (depth + 1)))
  | .document cs, depth =>
    lineItems depth (containerItem depth .document (allTagItems cs (depth + 1)))

/-- The lines of trees one after another. -/
def allTagItems : List Node → (depth : Nat) → List Item
  | [], _ => []
  | n :: ns, depth => tagItems n depth ++ allTagItems ns depth

end

theorem tagItems_node (k : Container) (cs : List Node) (depth : Nat) : tagItems (k.node cs) depth =
    lineItems depth (containerItem depth k (allTagItems cs (depth + 1))) := by
  cases k <;> rfl

theorem allTagItems_eq_flatMap (ns : List Node) (depth : Nat) :
    allTagItems ns depth = ns.flatMap fun n => tagItems n depth := by
  induction ns with
  | nil => rfl
  | cons n ns ih => rw [allTagItems, ih, List.flatMap_cons]

theorem allChars_lineItems (depth : Nat) (i : Item) :
    Item.allChars (lineItems depth i) = indent depth ++ (i.chars ++ ['\n']) := by
  simp [lineItems, Item.allChars, Item.chars]

theorem allTagItems_ne_nil {cs : List Node} (h : cs ≠ []) (depth : Nat) :
    allTagItems cs depth ≠ [] := by
  obtain ⟨c, cs, rfl⟩ := List.exists_cons_of_ne_nil h
  have hline : tagItems c depth ≠ [] := by cases c <;> simp [tagItems, lineItems]
  rw [allTagItems]
  exact List.append_ne_nil_of_left_ne_nil hline _

theorem allChars_innerLines {lines : List Item} (h : lines ≠ []) (depth : Nat) :
    Item.allChars (innerLines depth lines) = '\n' :: (Item.allChars lines ++ indent depth) := by
  obtain ⟨i, is, rfl⟩ := List.exists_cons_of_ne_nil h
  rw [innerLines, Item.allChars, Item.allChars_append, Item.allChars_ofChars]
  rfl

/-! ## What a visit writes -/

namespace TagWriter

/-- Write characters and stay at the level. -/
def put (w : TagWriter) (cs : List Char) : TagWriter :=
  { w with output := w.output ++ String.ofList cs }

@[simp] theorem put_level (w : TagWriter) (cs : List Char) : (w.put cs).level = w.level := rfl

@[simp] theorem put_nil (w : TagWriter) : w.put [] = w := by
  simp [put]

@[simp] theorem put_put (w : TagWriter) (cs cs' : List Char) :
    (w.put cs).put cs' = w.put (cs ++ cs') := by
  simp [put, String.append_assoc]

theorem line_eq_put (w : TagWriter) (s : String) :
    w.line s = w.put (indent w.level ++ (s.toList ++ ['\n'])) := by
  have hindent : "".pushn ' ' (2 * w.level) = String.ofList (indent w.level) :=
    String.toList_injective (by simp [toList_pushn, indent])
  have hend : "\n" = String.ofList ['\n'] := rfl
  rw [line, put, hindent, hend]
  simp [String.append_assoc]

/-- A line that is written whole. -/
theorem line_eq_put_lineItems {w : TagWriter} {s : String} {i : Item} (h : s.toList = i.chars) :
    w.line s = w.put (Item.allChars (lineItems w.level i)) := by
  rw [line_eq_put, allChars_lineItems, h]

theorem leaf_eq_put {name : String} (hname : Item.nameOf name.toList = name.toList)
    (text : String) (w : TagWriter) :
    leaf name text w = w.put (Item.allChars (lineItems w.level (leafItem name text))) := by
  apply line_eq_put_lineItems
  show ("<" ++ name ++ ">" ++ escapeTagText text ++ "</" ++ name ++ ">").toList = _
  simp [leafItem, Item.chars, hname, toList_escapeTagText]

theorem container_nil (k : Container) (walk : TagWriter → TagWriter) (w : TagWriter) :
    container (containerName k) (containerAttributes k) [] walk w =
      w.put (Item.allChars (lineItems w.level (containerItem w.level k []))) := by
  apply line_eq_put_lineItems
  show ("<" ++ containerName k ++ containerAttributes k ++ "></" ++ containerName k ++ ">").toList
    = _
  rw [containerItem, innerLines, Item.chars, nameOf_containerTag]
  simp [containerTag, Item.allChars]

/-- A container with children writes its tags on lines around what the walk over them writes one
level further in. -/
theorem container_of_ne_nil (k : Container) {cs : List Node} (hne : cs ≠ [])
    {walk : TagWriter → TagWriter}
    (hwalk : ∀ w, walk w = w.put (Item.allChars (allTagItems cs w.level))) (w : TagWriter) :
    container (containerName k) (containerAttributes k) cs walk w =
      w.put (Item.allChars (lineItems w.level
        (containerItem w.level k (allTagItems cs (w.level + 1))))) := by
  have hopening : w.line s!"<{containerName k}{containerAttributes k}>" =
      w.put (indent w.level ++ '<' :: (containerTag k ++ ['>', '\n'])) := by
    rw [line_eq_put]
    show w.put (_ ++ (("<" ++ containerName k ++ containerAttributes k ++ ">").toList ++ _)) = _
    simp [containerTag]
  have hclosing (w : TagWriter) : w.line s!"</{containerName k}>" =
      w.put (indent w.level ++ '<' :: '/' :: ((containerName k).toList ++ ['>', '\n'])) := by
    rw [line_eq_put]
    show w.put (_ ++ (("</" ++ containerName k ++ ">").toList ++ _)) = _
    simp
  have hempty : ¬cs.isEmpty := by simpa using hne
  have hinner := allChars_innerLines (allTagItems_ne_nil hne (w.level + 1)) w.level
  rw [container, if_neg hempty, allChars_lineItems, containerItem, Item.chars, hinner,
    nameOf_containerTag]
  simp only [hopening, hclosing, hwalk]
  -- The level is back where it was when the closing tag is written.
  show ((w.put _).put (Item.allChars (allTagItems cs (w.level + 1)))).put
    (indent w.level ++ _) = _
  simp

end TagWriter

open TagWriter

theorem visit_node (k : Container) (cs : List Node) :
    (k.node cs).visit tagVisitor = TagWriter.container (containerName k) (containerAttributes k) cs
      (Node.visitAll tagVisitor cs) := by
  rcases k with _ | _ | (_ | _ | _) | _ | _ <;> rfl

theorem visitAll_tagVisitor {ns : List Node}
    (h : ∀ n ∈ ns, ∀ w : TagWriter,
      n.visit tagVisitor w = w.put (Item.allChars (tagItems n w.level)))
    (w : TagWriter) :
    Node.visitAll tagVisitor ns w = w.put (Item.allChars (allTagItems ns w.level)) := by
  induction ns generalizing w with
  | nil => simp [Node.visitAll, allTagItems, Item.allChars]
  | cons n ns ih =>
    have hrest := ih fun m hm => h m (List.mem_cons_of_mem n hm)
    rw [Node.visitAll, h n (List.mem_cons_self ..), hrest, put_level, put_put, allTagItems,
      Item.allChars_append]

/-- A visit writes the lines of the tree at the level of the writer, and leaves the level as it
is. -/
theorem visit_tagVisitor (n : Node) : ∀ w : TagWriter,
    n.visit tagVisitor w = w.put (Item.allChars (tagItems n w.level)) := by
  induction n using Node.inductionOn with
  | text s => exact leaf_eq_put (by decide) s
  | link s => exact leaf_eq_put (by decide) s
  | container k cs ih =>
    intro w
    have hwalk := visitAll_tagVisitor ih
    rw [visit_node, tagItems_node]
    by_cases hne : cs = []
    · subst hne
      exact container_nil k _ w
    · exact container_of_ne_nil k hne hwalk w

/-- The lines that a visit to a node writes at a level. -/
def tagLines (n : Node) (level : Nat) : List Char :=
  (n.visit tagVisitor ⟨"", level⟩).output.toList

theorem tagLines_eq (n : Node) (level : Nat) :
    tagLines n level = Item.allChars (tagItems n level) := by
  rw [tagLines, visit_tagVisitor]
  simp [put]

theorem toList_tag (n : Node) : (tag n).toList = Item.allChars (tagItems n 0) := tagLines_eq n 0

end WikiMarkup.Format
