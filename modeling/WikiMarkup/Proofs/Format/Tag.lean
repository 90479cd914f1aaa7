import WikiMarkup.Proofs.Format.TagLines

/-!
# Trees in tags

Every tree can be read back from its tags, whatever texts it holds, because the characters that
could be taken for tags or for other characters are escaped. A node at depth `d` begins on a line of
its own, behind `2 * d` blanks, and so does the closing tag of a container with children.
-/

namespace WikiMarkup.Format

/-! ## Reading tags -/

/-- The container that an opening tag stands for. -/
def containerOfTag? (tag : List Char) : Option Container :=
  Container.all.find? fun k => containerTag k == tag

theorem containerOfTag?_containerTag (k : Container) :
    containerOfTag? (containerTag k) = some k :=
  Container.forall_of_mem_all (by decide) k

mutual

/-- The tree of an element. -/
def tagNode? : Item → Option Node
  | .char _ => none
  | .element tag is =>
    if tag = "text".toList then some (.text (String.ofList (unescape (Item.allChars is))))
    else if tag = "link".toList then some (.link (String.ofList (unescape (Item.allChars is))))
    else (containerOfTag? tag).map fun k => k.node (tagNodes is)

/-- The trees of the elements among these items; the characters between them do not count. -/
def tagNodes : List Item → List Node
  | [] => []
  | i :: is => (tagNode? i).toList ++ tagNodes is

end

/-- The tree of a text with tags that has one element with all others inside. -/
def readTag? (text : String) : Option Node :=
  match (TagReader.readItems? text.toList).map tagNodes with
  | some [n] => some n
  | _ => none

theorem tagNodes_append (is js : List Item) : tagNodes (is ++ js) = tagNodes is ++ tagNodes js := by
  induction is with
  | nil => rfl
  | cons i is ih => rw [List.cons_append, tagNodes, tagNodes, ih, List.append_assoc]

theorem tagNodes_ofChars (cs : List Char) : tagNodes (Item.ofChars cs) = [] := by
  induction cs with
  | nil => rfl
  | cons c cs ih => exact ih

theorem tagNodes_lineItems (depth : Nat) (i : Item) :
    tagNodes (lineItems depth i) = (tagNode? i).toList := by
  rw [lineItems, tagNodes_append, tagNodes_ofChars, List.nil_append, tagNodes]
  exact List.append_nil _

theorem tagNodes_innerLines (depth : Nat) (lines : List Item) :
    tagNodes (innerLines depth lines) = tagNodes lines := by
  cases lines with
  | nil => rfl
  | cons i is =>
    have hchar : tagNodes (.char '\n' :: (i :: is ++ Item.ofChars (indent depth))) =
        tagNodes (i :: is ++ Item.ofChars (indent depth)) := rfl
    rw [innerLines, hchar, tagNodes_append, tagNodes_ofChars, List.append_nil]

theorem tagNode?_containerItem (depth : Nat) (k : Container) (lines : List Item) :
    tagNode? (containerItem depth k lines) = some (k.node (tagNodes lines)) := by
  have htext : containerTag k ≠ "text".toList := Container.forall_of_mem_all (by decide) k
  have hlink : containerTag k ≠ "link".toList := Container.forall_of_mem_all (by decide) k
  rw [containerItem, tagNode?, if_neg htext, if_neg hlink, containerOfTag?_containerTag,
    Option.map_some, tagNodes_innerLines]

theorem tagNodes_allTagItems {ns : List Node}
    (h : ∀ n ∈ ns, ∀ depth, tagNodes (tagItems n depth) = [n]) (depth : Nat) :
    tagNodes (allTagItems ns depth) = ns := by
  induction ns with
  | nil => rfl
  | cons n ns ih =>
    have hrest := ih fun m hm => h m (List.mem_cons_of_mem n hm)
    rw [allTagItems, tagNodes_append, h n (List.mem_cons_self ..), hrest]
    rfl

/-- The lines of a tree stand for the tree. -/
theorem tagNodes_tagItems (n : Node) : ∀ depth, tagNodes (tagItems n depth) = [n] := by
  induction n using Node.inductionOn with
  | text s =>
    intro depth
    rw [tagItems, tagNodes_lineItems, leafItem, tagNode?, if_pos rfl, Item.allChars_ofChars,
      unescape_escaped, String.ofList_toList]
    rfl
  | link s =>
    intro depth
    rw [tagItems, tagNodes_lineItems, leafItem, tagNode?, if_neg (by decide), if_pos rfl,
      Item.allChars_ofChars, unescape_escaped, String.ofList_toList]
    rfl
  | container k cs ih =>
    intro depth
    rw [tagItems_node, tagNodes_lineItems, tagNode?_containerItem, tagNodes_allTagItems ih]
    rfl

/-! ## Tags can be told from texts -/

theorem not_mem_indent (depth : Nat) : '<' ∉ indent depth := fun h =>
  absurd (List.eq_of_mem_replicate h) (by decide)

theorem legible_lineItems {i : Item} (h : i.Legible) (depth : Nat) :
    ∀ j ∈ lineItems depth i, j.Legible := by
  intro j hj
  rw [lineItems, List.mem_append, List.mem_cons, List.mem_singleton] at hj
  obtain hj | rfl | rfl := hj
  · exact Item.legible_ofChars (not_mem_indent depth) j hj
  · exact h
  · exact .char (by decide)

theorem legible_leafItem {name : String} (hopening : name.toList.head? ≠ some '/')
    (hname : '>' ∉ name.toList) (text : String) : (leafItem name text).Legible :=
  .element hopening hname (Item.legible_ofChars (not_mem_escaped text.toList))

theorem legible_containerItem {lines : List Item} (h : ∀ i ∈ lines, i.Legible) (depth : Nat)
    (k : Container) : (containerItem depth k lines).Legible := by
  have hopening : (containerTag k).head? ≠ some '/' := Container.forall_of_mem_all (by decide) k
  have htag : '>' ∉ containerTag k := Container.forall_of_mem_all (by decide) k
  refine .element hopening htag ?_
  cases lines with
  | nil => exact List.forall_mem_nil _
  | cons i is =>
    intro j hj
    rw [innerLines, List.mem_cons, List.mem_append] at hj
    obtain rfl | hj | hj := hj
    · exact .char (by decide)
    · exact h j hj
    · exact Item.legible_ofChars (not_mem_indent depth) j hj

theorem legible_tagItems (n : Node) : ∀ depth, ∀ i ∈ tagItems n depth, i.Legible := by
  induction n using Node.inductionOn with
  | text s =>
    intro depth
    exact legible_lineItems (legible_leafItem (by decide) (by decide) s) depth
  | link s =>
    intro depth
    exact legible_lineItems (legible_leafItem (by decide) (by decide) s) depth
  | container k cs ih =>
    intro depth
    rw [tagItems_node]
    refine legible_lineItems (legible_containerItem ?_ depth k) depth
    intro i hi
    rw [allTagItems_eq_flatMap, List.mem_flatMap] at hi
    obtain ⟨c, hc, hi⟩ := hi
    exact ih c hc (depth + 1) i hi

theorem readTag?_eq (n : Node) : readTag? (tag n) = some n := by
  rw [readTag?, toList_tag, TagReader.readItems?_allChars (legible_tagItems n 0), Option.map_some,
    tagNodes_tagItems]

/-! ## Where tags stand -/

/-- What stands in the opening tag of a node. -/
def elementTag : Node → List Char
  | .text _ => "text".toList
  | .link _ => "link".toList
  | .bold _ => containerTag .bold
  | .italics _ => containerTag .italics
  | .header level _ => containerTag (.header level)
  | .paragraph _ => containerTag .paragraph
  | .document _ => containerTag .document

def openingTag (n : Node) : List Char := '<' :: (elementTag n ++ ['>'])

def closingTag (n : Node) : List Char := '<' :: '/' :: (Item.nameOf (elementTag n) ++ ['>'])

theorem elementTag_node (k : Container) (cs : List Node) :
    elementTag (k.node cs) = containerTag k := by
  cases k <;> rfl

/-- What comes after these characters begins a line. -/
def AtLineStart (cs : List Char) : Prop := cs = [] ∨ cs.getLast? = some '\n'

theorem AtLineStart.append {cs cs' : List Char} (h : AtLineStart cs) (h' : AtLineStart cs') :
    AtLineStart (cs ++ cs') := by
  obtain rfl | hlast := h'
  · rwa [List.append_nil]
  · exact .inr (by rw [List.getLast?_append, hlast]; rfl)

theorem atLineStart_append_newline (cs : List Char) : AtLineStart (cs ++ ['\n']) :=
  .inr List.getLast?_concat

theorem atLineStart_allChars_lineItems (depth : Nat) (i : Item) :
    AtLineStart (Item.allChars (lineItems depth i)) := by
  rw [allChars_lineItems, ← List.append_assoc]
  exact atLineStart_append_newline _

theorem atLineStart_allChars_tagItems (n : Node) (depth : Nat) :
    AtLineStart (Item.allChars (tagItems n depth)) := by
  cases n <;> exact atLineStart_allChars_lineItems depth _

theorem atLineStart_allChars_allTagItems (ns : List Node) (depth : Nat) :
    AtLineStart (Item.allChars (allTagItems ns depth)) := by
  induction ns with
  | nil => exact .inl rfl
  | cons n ns ih =>
    rw [allTagItems, Item.allChars_append]
    exact (atLineStart_allChars_tagItems n depth).append ih

/-- The lines of a node begin with its opening tag and end with its closing tag, if it has children,
and both stand behind the blanks of the depth alone. -/
structure IsIndented (depth : Nat) (n : Node) (text : List Char) : Prop where
  opening : ∃ rest, text = indent depth ++ (openingTag n ++ rest)
  closing : n.children ≠ [] → ∃ front, AtLineStart front ∧
    text = front ++ (indent depth ++ (closingTag n ++ ['\n']))

/-- The tags of a container with children, around the lines of the children. -/
theorem allChars_tagItems_node (k : Container) {cs : List Node} (hne : cs ≠ []) (depth : Nat) :
    Item.allChars (tagItems (k.node cs) depth) =
      (indent depth ++ openingTag (k.node cs) ++ ['\n']) ++
        (Item.allChars (allTagItems cs (depth + 1)) ++
          (indent depth ++ (closingTag (k.node cs) ++ ['\n']))) := by
  have hinner := allChars_innerLines (allTagItems_ne_nil hne (depth + 1)) depth
  rw [tagItems_node, allChars_lineItems, containerItem, Item.chars, hinner, openingTag, closingTag,
    elementTag_node]
  simp

theorem isIndented_tagLines (n : Node) (depth : Nat) : IsIndented depth n (tagLines n depth) := by
  rw [tagLines_eq]
  have hopening {n : Node} {items : List Item}
      (h : tagItems n depth = lineItems depth (.element (elementTag n) items)) :
      ∃ rest, Item.allChars (tagItems n depth) = indent depth ++ (openingTag n ++ rest) := by
    refine ⟨Item.allChars items ++ (closingTag n ++ ['\n']), ?_⟩
    rw [h, allChars_lineItems, Item.chars, openingTag, closingTag]
    simp
  cases n using Node.inductionOn with
  | text s => exact ⟨hopening rfl, fun hne => absurd rfl hne⟩
  | link s => exact ⟨hopening rfl, fun hne => absurd rfl hne⟩
  | container k cs _ =>
    constructor
    · apply hopening
      rw [tagItems_node, elementTag_node]
      rfl
    · intro hne
      rw [Container.children_node] at hne
      refine ⟨_, ?_, (allChars_tagItems_node k hne depth).trans (List.append_assoc ..).symm⟩
      exact (atLineStart_append_newline _).append (atLineStart_allChars_allTagItems cs _)

/-- A container around a place adds whole lines to those of what stands there. -/
theorem exists_tagLines_around (e : Node.Enclosure) (depth : Nat) :
    ∃ before after, AtLineStart before ∧ ∀ n,
      tagLines (e.around n) depth = before ++ (tagLines n (depth + 1) ++ after) := by
  let opening := indent depth ++ openingTag (e.container.node []) ++ ['\n']
  let closing := indent depth ++ (closingTag (e.container.node []) ++ ['\n'])
  have hopening : AtLineStart opening := atLineStart_append_newline _
  refine ⟨opening ++ Item.allChars (allTagItems e.before (depth + 1)),
    Item.allChars (allTagItems e.after (depth + 1)) ++ closing,
    hopening.append (atLineStart_allChars_allTagItems ..), fun n => ?_⟩
  have hlines : Item.allChars (allTagItems (e.before ++ n :: e.after) (depth + 1)) =
      Item.allChars (allTagItems e.before (depth + 1)) ++
        (Item.allChars (tagItems n (depth + 1)) ++
          Item.allChars (allTagItems e.after (depth + 1))) := by
    simp [allTagItems_eq_flatMap]
  have hne : e.before ++ n :: e.after ≠ [] := List.append_ne_nil_of_right_ne_nil _ nofun
  rw [tagLines_eq, tagLines_eq, Node.Enclosure.around, allChars_tagItems_node e.container hne,
    hlines]
  simp [opening, closing, openingTag, closingTag, elementTag_node]

/-- What stands around the lines of a node at a place depends on the place alone. -/
theorem exists_toList_tag_enclosed (es : List Node.Enclosure) :
    ∃ before after, AtLineStart before ∧ ∀ n, (tag (Node.enclosed es n)).toList =
      before ++ (tagLines n es.length ++ after) := by
  induction es with
  | nil =>
    refine ⟨[], [], .inl rfl, fun n => ?_⟩
    rw [Node.enclosed_nil, List.nil_append, List.append_nil]
    rfl
  | cons e es ih =>
    obtain ⟨before, after, hbefore, hes⟩ := ih
    obtain ⟨inner, rest, hinner, he⟩ := exists_tagLines_around e es.length
    refine ⟨before ++ inner, rest ++ after, hbefore.append hinner, fun n => ?_⟩
    rw [Node.enclosed_cons, hes, he, List.length_cons]
    simp

/-- No tree is lost in its tags, a visit leaves the level as it is, and the tags of a node stand
behind the blanks of its depth alone, whatever is around the node. -/
theorem readTag?_tag_and_isIndented :
    (∀ n, readTag? (tag n) = some n) ∧
      (∀ (n : Node) (w : TagWriter), (n.visit tagVisitor w).level = w.level) ∧
      ∀ es : List Node.Enclosure, ∃ before after, AtLineStart before ∧ ∀ n,
        (tag (Node.enclosed es n)).toList = before ++ (tagLines n es.length ++ after) ∧
          IsIndented es.length n (tagLines n es.length) := by
  refine ⟨readTag?_eq, ?_, ?_⟩
  · intro n w
    rw [visit_tagVisitor, TagWriter.put_level]
  · intro es
    obtain ⟨before, after, hbefore, hes⟩ := exists_toList_tag_enclosed es
    exact ⟨before, after, hbefore, fun n => ⟨hes n, isIndented_tagLines n es.length⟩⟩

end WikiMarkup.Format
