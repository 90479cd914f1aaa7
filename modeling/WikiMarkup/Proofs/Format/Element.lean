/-!
# Texts of elements

The formats with tags write a tree as elements inside one another with characters between them.
Here such a text is taken apart again, whatever its tags mean: a pass over the characters keeps the
tag that is being read and the elements that are open. `readItems?_allChars` says that it gives back
what was written if the characters and tags can be told apart.
-/

namespace WikiMarkup.Format

/-- A piece of a text with tags: a single character, or an element, given by what stands in its
opening tag and the pieces between its tags. -/
inductive Item where
  | char (c : Char)
  | element (tag : List Char) (items : List Item)

namespace Item

/-- The name in an opening tag, which attributes may follow. -/
def nameOf (tag : List Char) : List Char := tag.takeWhile (· != ' ')

mutual

/-- The characters of an item. -/
def chars : Item → List Char
  | .char c => [c]
  | .element tag items =>
    '<' :: (tag ++ '>' :: (allChars items ++ '<' :: '/' :: (nameOf tag ++ ['>'])))

/-- The characters of items one after another. -/
def allChars : List Item → List Char
  | [] => []
  | i :: is => i.chars ++ allChars is

end

@[simp] theorem allChars_append (is js : List Item) :
    allChars (is ++ js) = allChars is ++ allChars js := by
  induction is with
  | nil => rfl
  | cons i is ih => rw [List.cons_append, allChars, allChars, ih, List.append_assoc]

@[simp] theorem allChars_singleton (i : Item) : allChars [i] = i.chars := List.append_nil _

/-- The items of a text without tags. -/
def ofChars (cs : List Char) : List Item := cs.map .char

@[simp] theorem allChars_ofChars (cs : List Char) : allChars (ofChars cs) = cs := by
  induction cs with
  | nil => rfl
  | cons c cs ih => exact congrArg (c :: ·) ih

/-- Tags can be told from the rest: no character outside them begins one, none inside them ends one,
and no opening tag looks like a closing one. -/
inductive Legible : Item → Prop where
  | char {c : Char} : c ≠ '<' → Legible (.char c)
  | element {tag : List Char} {items : List Item} : tag.head? ≠ some '/' → '>' ∉ tag →
    (∀ i ∈ items, Legible i) → Legible (.element tag items)

theorem legible_ofChars {cs : List Char} (h : '<' ∉ cs) : ∀ i ∈ ofChars cs, Legible i := by
  intro i hi
  obtain ⟨c, hc, rfl⟩ := List.mem_map.mp hi
  refine .char ?_
  rintro rfl
  exact h hc

end Item

/-- A pass over a text with tags: the tag that is being read, if one is, the items of the innermost
open element, and around it the open elements with the items before each, the innermost first. -/
structure TagReader where
  tag? : Option (List Char)
  items : List Item
  outer : List (List Char × List Item)

namespace TagReader

/-- At the end of a tag an element opens, or the innermost one closes if the tag has its name. -/
def endTag (r : TagReader) (tag : List Char) : Option TagReader :=
  match tag with
  | '/' :: name =>
    match r.outer with
    | [] => none
    | (opening, before) :: outer =>
      if name = Item.nameOf opening then some ⟨none, before ++ [.element opening r.items], outer⟩
      else none
  | _ => some ⟨none, [], (tag, r.items) :: r.outer⟩

def step (r : TagReader) (c : Char) : Option TagReader :=
  match r.tag? with
  | none =>
    if c = '<' then some { r with tag? := some [] }
    else some { r with items := r.items ++ [.char c] }
  | some tag => if c = '>' then r.endTag tag else some { r with tag? := some (tag ++ [c]) }

def run (r : TagReader) (cs : List Char) : Option TagReader := cs.foldlM step r

/-- The items of a text, if every element in it is closed. -/
def readItems? (cs : List Char) : Option (List Item) :=
  match run ⟨none, [], []⟩ cs with
  | some ⟨none, items, []⟩ => some items
  | _ => none

variable {items is : List Item} {outer : List (List Char × List Item)} {tag : List Char}

@[simp] theorem run_nil (r : TagReader) : r.run [] = some r := rfl

@[simp] theorem run_cons (r : TagReader) (c : Char) (cs : List Char) :
    r.run (c :: cs) = (r.step c).bind fun r => r.run cs := List.foldlM_cons

theorem run_append (r : TagReader) (cs cs' : List Char) :
    r.run (cs ++ cs') = (r.run cs).bind fun r => r.run cs' := List.foldlM_append

/-- The characters of a tag are gathered up to its end. -/
theorem run_tag (h : '>' ∉ tag) (front rest : List Char) :
    run ⟨some front, items, outer⟩ (tag ++ '>' :: rest) =
      (endTag ⟨some front, items, outer⟩ (front ++ tag)).bind fun r => r.run rest := by
  induction tag generalizing front with
  | nil => simp [step]
  | cons c tag ih =>
    rw [List.mem_cons, not_or] at h
    have hstep : step ⟨some front, items, outer⟩ c = some ⟨some (front ++ [c]), items, outer⟩ :=
      if_neg (Ne.symm h.1)
    rw [List.cons_append, run_cons, hstep, Option.bind_some, ih h.2]
    simp [endTag]

theorem endTag_of_opening (h : tag.head? ≠ some '/') (r : TagReader) :
    r.endTag tag = some ⟨none, [], (tag, r.items) :: r.outer⟩ := by
  unfold endTag
  split
  · exact absurd rfl h
  · rfl

theorem run_allChars_of_forall (h : ∀ i ∈ is, ∀ items outer,
      run ⟨none, items, outer⟩ i.chars = some ⟨none, items ++ [i], outer⟩)
    (items : List Item) (outer : List (List Char × List Item)) :
    run ⟨none, items, outer⟩ (Item.allChars is) = some ⟨none, items ++ is, outer⟩ := by
  induction is generalizing items with
  | nil => simp [Item.allChars]
  | cons i is ih =>
    have hrest := ih fun j hj => h j (List.mem_cons_of_mem i hj)
    rw [Item.allChars, run_append, h i (List.mem_cons_self ..), Option.bind_some, hrest]
    simp

/-- An item that is read goes to the end of the innermost open element. -/
theorem run_chars {i : Item} (h : i.Legible) : ∀ items outer,
    run ⟨none, items, outer⟩ i.chars = some ⟨none, items ++ [i], outer⟩ := by
  induction h with
  | char hc =>
    intro items outer
    simp [Item.chars, step, hc]
  | @element tag is hopening htag _ ih =>
    intro items outer
    have hname : '>' ∉ Item.nameOf tag := fun hmem => htag (List.takeWhile_subset _ hmem)
    have hinside := run_allChars_of_forall ih [] ((tag, items) :: outer)
    have hclose : endTag ⟨some ['/'], is, (tag, items) :: outer⟩ ('/' :: Item.nameOf tag) =
        some ⟨none, items ++ [.element tag is], outer⟩ := if_pos rfl
    calc run ⟨none, items, outer⟩ (Item.element tag is).chars
        = run ⟨some [], items, outer⟩ (tag ++ '>' :: (Item.allChars is ++
            '<' :: '/' :: (Item.nameOf tag ++ ['>']))) := rfl
      _ = run ⟨none, [], (tag, items) :: outer⟩ (Item.allChars is ++
            '<' :: '/' :: (Item.nameOf tag ++ ['>'])) := by
          rw [run_tag htag, List.nil_append, endTag_of_opening hopening, Option.bind_some]
      _ = run ⟨some ['/'], is, (tag, items) :: outer⟩ (Item.nameOf tag ++ ['>']) := by
          rw [run_append, hinside]
          rfl
      _ = some ⟨none, items ++ [.element tag is], outer⟩ := by
          rw [run_tag hname, List.singleton_append, hclose]
          rfl

/-- A legible text is read as the items of which it was written. -/
theorem readItems?_allChars (h : ∀ i ∈ is, i.Legible) :
    readItems? (Item.allChars is) = some is := by
  rw [readItems?, run_allChars_of_forall fun i hi => run_chars (h i hi)]
  simp

end TagReader

end WikiMarkup.Format
