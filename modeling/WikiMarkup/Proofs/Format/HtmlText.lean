import WikiMarkup.Proofs.Format.Html
import WikiMarkup.Proofs.Regex.Anchored
import WikiMarkup.Proofs.Regex.Delete

/-!
# The text of HTML

Without its tags the HTML of a tree is the text of the tree, if the tags can be told from the rest.
The tags are deleted by a pattern, which goes over the whole text and knows nothing of elements. A
text may have the character that ends tags, since outside a tag it ends none.
-/

namespace WikiMarkup

namespace Regex

/-! ## The pattern -/

/-- Any character that does not end a tag. -/
def inTag : CharSet := ⟨[('>', '>')], true⟩

/-- A tag, whatever stands in it. -/
def anyTag : Regex := sequence [.chars (.single '<'), star (.chars inTag), .chars (.single '>')]

theorem ofSource_anyTag : ofSource "<[^>]*>" = .ok anyTag := by
  have hclass (cs : List Char) : readClass ('^' :: '>' :: ']' :: cs) = .ok (inTag, cs) := by
    have h : readClass ['^', '>', ']'] = .ok (inTag, []) := by with_unfolding_all rfl
    exact readClass_append h cs
  have htokens : tokens "<[^>]*>".toList =
      .ok [.one (.single '<'), .one inTag, .star, .one (.single '>')] := by
    simp [tokens, tokens_class (hclass _)]
    rfl
  rw [ofSource, htokens]
  rfl

theorem contains_inTag (c : Char) : inTag.contains c = (c != '>') := by
  have h : inTag.contains c = !(CharSet.single '>').contains c := by
    simp [inTag, CharSet.single, CharSet.contains]
  rw [h, CharSet.contains_single]
  rfl

/-- Behind the characters before the first `d` stands `d`, if there is one. -/
theorem head?_drop_takeWhile_ne (d : Char) (cs : List Char) :
    (cs.drop (cs.takeWhile (· != d)).length).head? = if d ∈ cs then some d else none := by
  induction cs with
  | nil => rfl
  | cons c cs ih =>
    by_cases hc : c = d
    · subst hc
      simp
    · simp [hc, Ne.symm hc, ih]

variable {atStart : Bool} {c : Char} {cs : List Char}

theorem lengths_sequence_single (d : Char) : (sequence [.chars (.single d)]).lengths atStart cs =
    if cs.head? = some d then [1] else [] := by
  cases cs with
  | nil => rfl
  | cons c cs =>
    by_cases hc : c = d
    · simp [sequence, lengths, CharSet.contains_single, hc, List.eraseDups_cons]
    · simp [sequence, lengths, CharSet.contains_single, hc]

/-- The end of a tag is none of the characters inside, so taking fewer of them is of no use. -/
theorem commits_inTag : Commits (star (.chars inTag)) (sequence [.chars (.single '>')]) := by
  apply commits_star_chars
  intro atStart cs hhead
  rw [lengths_sequence_single]
  apply if_neg
  intro hend
  rw [hend, Option.any_some, contains_inTag] at hhead
  exact absurd hhead (by decide)

/-- There is a match where a tag begins, if some later character ends it, and the first that does
ends the match. -/
theorem preferred?_anyTag : anyTag.preferred? atStart (c :: cs) =
    if c = '<' ∧ '>' ∈ cs then some ((cs.takeWhile (· != '>')).length + 2) else none := by
  have hopening : (chars (.single '<')).preferred? atStart (c :: cs) =
      if c = '<' then some 1 else none := by
    by_cases hc : c = '<' <;> simp [preferred?, lengths, CharSet.contains_single, hc]
  have hset : inTag.contains = (· != '>') := funext contains_inTag
  rw [anyTag, sequence_cons, preferred?_seq commits_chars, hopening, sequence_cons]
  by_cases hc : c = '<'
  · rw [if_pos hc, Option.bind_some, preferred?_seq commits_inTag, preferred?_star_chars, hset]
    simp only [preferred?, lengths_sequence_single, List.drop_succ_cons, List.drop_zero,
      Option.bind_some, head?_drop_takeWhile_ne, hc, true_and]
    by_cases hend : '>' ∈ cs
    · have hlength : 1 + ((cs.takeWhile (· != '>')).length + 1) =
          (cs.takeWhile (· != '>')).length + 2 := by omega
      simpa [hend] using hlength
    · simp [hend]
  · rw [if_neg hc, if_neg fun hboth => hc hboth.1]
    rfl

theorem isLocal_anyTag : anyTag.IsLocal where
  start atStart cs := by
    cases cs with
    | nil => rfl
    | cons c cs => rw [preferred?_anyTag, preferred?_anyTag]
  nil := rfl
  pos cs := by
    cases cs with
    | nil => nofun
    | cons c cs =>
      rw [preferred?_anyTag]
      split <;> simp

theorem deleteAll_anyTag_cons (h : c ≠ '<') :
    anyTag.deleteAll (c :: cs) = c :: anyTag.deleteAll cs := by
  apply isLocal_anyTag.deleteAll_of_none
  rw [preferred?_anyTag]
  exact if_neg fun hboth => h hboth.1

theorem deleteAll_anyTag_tag {inside : List Char} (h : '>' ∉ inside) (rest : List Char) :
    anyTag.deleteAll ('<' :: (inside ++ '>' :: rest)) = anyTag.deleteAll rest := by
  have htake : (inside ++ '>' :: rest).takeWhile (· != '>') = inside := by
    have hinside : ∀ c ∈ inside, (c != '>') = true := by
      intro c hc
      rw [bne_iff_ne]
      rintro rfl
      exact h hc
    rw [List.takeWhile_append_of_pos hinside, List.takeWhile_cons_of_neg (by decide),
      List.append_nil]
  have hmatch : anyTag.preferred? false ('<' :: (inside ++ '>' :: rest)) =
      some (inside.length + 2) := by
    rw [preferred?_anyTag, if_pos ⟨rfl, by simp⟩, htake]
  rw [isLocal_anyTag.deleteAll_of_some hmatch]
  simp

end Regex

namespace Format

open Node Regex

/-! ## Deleting the tags of elements -/

mutual

/-- The characters of an item that stand in no tag. -/
def Item.bare : Item → List Char
  | .char c => [c]
  | .element _ items => Item.allBare items

def Item.allBare : List Item → List Char
  | [] => []
  | i :: is => i.bare ++ Item.allBare is

end

@[simp] theorem Item.allBare_append (is js : List Item) :
    allBare (is ++ js) = allBare is ++ allBare js := by
  induction is with
  | nil => rfl
  | cons i is ih => rw [List.cons_append, allBare, allBare, ih, List.append_assoc]

@[simp] theorem Item.allBare_singleton (i : Item) : allBare [i] = i.bare := List.append_nil _

theorem Item.allBare_ofChars (cs : List Char) : allBare (ofChars cs) = cs := by
  induction cs with
  | nil => rfl
  | cons c cs ih => exact congrArg (c :: ·) ih

theorem deleteAll_allChars_of_forall {is : List Item} (h : ∀ i ∈ is, ∀ rest,
      anyTag.deleteAll (i.chars ++ rest) = i.bare ++ anyTag.deleteAll rest) (rest : List Char) :
    anyTag.deleteAll (Item.allChars is ++ rest) = Item.allBare is ++ anyTag.deleteAll rest := by
  induction is with
  | nil => rfl
  | cons i is ih =>
    have hrest := ih fun j hj => h j (List.mem_cons_of_mem i hj)
    rw [Item.allChars, List.append_assoc, h i (List.mem_cons_self ..), hrest, Item.allBare,
      List.append_assoc]

/-- Of a legible item the characters outside its tags are left, whatever follows. -/
theorem deleteAll_chars {i : Item} (h : i.Legible) : ∀ rest,
    anyTag.deleteAll (i.chars ++ rest) = i.bare ++ anyTag.deleteAll rest := by
  induction h with
  | char hc =>
    intro rest
    exact deleteAll_anyTag_cons hc
  | @element tag is _ htag _ ih =>
    intro rest
    have hclosing : '>' ∉ '/' :: Item.nameOf tag := by
      rw [List.mem_cons, not_or]
      exact ⟨by decide, fun hmem => htag (List.takeWhile_subset _ hmem)⟩
    calc anyTag.deleteAll ((Item.element tag is).chars ++ rest)
        = anyTag.deleteAll ('<' :: (tag ++ '>' :: (Item.allChars is ++
            '<' :: ('/' :: Item.nameOf tag ++ '>' :: rest)))) := by simp [Item.chars]
      _ = Item.allBare is ++
            anyTag.deleteAll ('<' :: ('/' :: Item.nameOf tag ++ '>' :: rest)) := by
          rw [deleteAll_anyTag_tag htag, deleteAll_allChars_of_forall ih]
      _ = Item.allBare is ++ anyTag.deleteAll rest := by rw [deleteAll_anyTag_tag hclosing]

theorem deleteAll_allChars {is : List Item} (h : ∀ i ∈ is, i.Legible) :
    anyTag.deleteAll (Item.allChars is) = Item.allBare is := by
  have hall := deleteAll_allChars_of_forall (fun i hi => deleteAll_chars (h i hi)) []
  rwa [List.append_nil, deleteAll_nil, List.append_nil] at hall

/-- Outside tags the HTML of a tree has what the tree shows. -/
theorem allBare_htmlItems (n : Node) : Item.allBare (htmlItems n) = n.shown := by
  induction n using Node.inductionOn with
  | text s => exact Item.allBare_ofChars s.toList
  | link s =>
    rw [htmlItems, Item.allBare_singleton]
    exact Item.allBare_ofChars s.toList
  | container k cs ih =>
    have hall : Item.allBare (allHtmlItems cs) = allShown cs := by
      induction cs with
      | nil => rfl
      | cons c cs ihcs =>
        have hrest := ihcs fun d hd => ih d (List.mem_cons_of_mem c hd)
        rw [allHtmlItems, Item.allBare_append, ih c (List.mem_cons_self ..), hrest, allShown]
    rw [htmlItems_node, shown_node, ← hall, Item.allBare_singleton]
    rfl

end Format

namespace Node

open Format Regex

/-- All passes through a tree agree on its leaves. A visitor that names texts and links only is told
of them in order, and the text of the tree is their strings one after another. The searches for
links find those among them. If none of them begins a tag and no link ends one, the HTML without all
that looks like a tag is the text as well. -/
theorem passes_agree_on_leaves (n : Node) :
    (∀ {σ : Type} (text link : String → σ → σ) (s : σ), n.visit (leafVisitor text link) s =
      n.leaves.foldl (fun s leaf => leaf.meet text link s) s) ∧
    n.plainText = String.join (n.leaves.map Leaf.label) ∧
    (∀ target, n.hasLink target = true ↔ .link target ∈ n.leaves) ∧
    (n.hasSomeLink = true ↔ ∃ target, .link target ∈ n.leaves) ∧
    ofSource "<[^>]*>" = .ok anyTag ∧
    ((∀ leaf ∈ n.leaves, '<' ∉ leaf.label.toList) →
      (∀ target, .link target ∈ n.leaves → '>' ∉ target.toList) →
      String.ofList (anyTag.deleteAll (html n).toList) = n.plainText) := by
  refine ⟨fun text link => visit_leafVisitor text link n, ?_,
    fun target => hasLink_iff_mem_leaves target n, hasSomeLink_iff_mem_leaves n,
    ofSource_anyTag, ?_⟩
  · apply String.toList_injective
    rw [plainText_eq, String.toList_ofList, String.toList_join, List.flatMap_map,
      shown_eq_flatMap_leaves]
  · intro hlt hgt
    rw [toList_html, deleteAll_allChars (legible_htmlItems_of_leaves hlt hgt), allBare_htmlItems,
      plainText_eq]

/-- Texts that look like the end of a tag are kept, and the label of a link is kept once. -/
theorem passes_agree_on_leaves_arrow : String.ofList (anyTag.deleteAll
      "<p>a -> <b>é><a href='AbCd'>AbCd</a></b></p>".toList) = "a -> é>AbCd" := by
  obtain ⟨-, -, -, -, -, hdelete⟩ := passes_agree_on_leaves
    (.paragraph [.text "a -> ", .bold [.text "é>", .link "AbCd"]])
  have hleaves : (paragraph [.text "a -> ", .bold [.text "é>", .link "AbCd"]]).leaves =
      [.text "a -> ", .text "é>", .link "AbCd"] := rfl
  rw [hleaves] at hdelete
  exact hdelete (by decide) (by simp)

end Node

end WikiMarkup
