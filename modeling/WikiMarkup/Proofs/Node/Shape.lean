import Mathlib.Data.List.Chain
import WikiMarkup.Proofs.Node.Leaves
import WikiMarkup.Proofs.Rules.Word

/-!
# The shape of trees

A page is a document of headers and paragraphs, a span in one of them may hold spans of the other
kind, and these hold leaves only. Texts and links are as long as they can be: a text holds no link
and no delimiter, and neither two texts nor two links stand side by side.
-/

namespace WikiMarkup

namespace Node

/-- Something on one line, without delimiters, and with a link at none of its places. -/
structure IsPlain (s : String) : Prop where
  ne_empty : s ≠ ""
  chars : ∀ c ∈ s.toList, c ≠ '\n' ∧ c ≠ '*' ∧ c ≠ '/'
  linkless : ∀ index c, Cursor.at? s index = .ok c → Rule.link.run c = .ok .fail

/-- A text or a link. -/
def IsLeaf : Node → Prop
  | .text s => IsPlain s
  | .link s => IsWikiWord s.toList
  | _ => False

/-- Not both are texts, and not both are links. -/
def Apart (m n : Node) : Prop :=
  ¬(m.kind = .text ∧ n.kind = .text) ∧ ¬(m.kind = .link ∧ n.kind = .link)

/-- Siblings with a property, any two neighbours of which are apart. -/
structure IsRow (P : Node → Prop) (ns : List Node) : Prop where
  all : ∀ n ∈ ns, P n
  apart : ns.IsChain Apart

/-- A span between two of these delimiters that holds a row of nodes, one at least. -/
def IsSpan (d : Delimiter) (P : Node → Prop) (n : Node) : Prop :=
  ∃ ns, n = d.span ns ∧ ns ≠ [] ∧ IsRow P ns

/-- What may stand in a span that is not inside another: leaves and spans of the other kind, which
hold leaves. -/
def IsContent (d : Delimiter) (n : Node) : Prop := IsLeaf n ∨ IsSpan d.other IsLeaf n

/-- What may stand in a block. -/
def IsInline (n : Node) : Prop := IsLeaf n ∨ ∃ d, IsSpan d (IsContent d) n

/-- Headers are not empty; paragraphs may be. -/
inductive IsBlock : Node → Prop where
  | header {level : HeaderLevel} {ns : List Node} :
    ns ≠ [] → IsRow IsInline ns → IsBlock (.header level ns)
  | paragraph {ns : List Node} : IsRow IsInline ns → IsBlock (.paragraph ns)

/-- A paragraph that is empty or holds a text of spaces and tabs. -/
inductive IsBlankParagraph : Node → Prop where
  | empty : IsBlankParagraph (.paragraph [])
  | blanks {s : String} : (∀ c ∈ s.toList, c = ' ' ∨ c = '\t') →
    IsBlankParagraph (.paragraph [.text s])

/-- A document of one block at least, of which only the first may be a blank paragraph. -/
inductive IsPage : Node → Prop where
  | document {first : Node} {later : List Node} : IsBlock first →
    (∀ n ∈ later, IsBlock n ∧ ¬IsBlankParagraph n) → IsPage (.document (first :: later))

/-! ## Rows -/

variable {P Q : Node → Prop} {m n : Node} {ms ns : List Node}

theorem apart_of_left (h : m.leafText? = none) : Apart m n := by
  cases m <;> simp_all [Apart, kind, leafText?]

theorem apart_of_right (h : n.leafText? = none) : Apart m n := by
  cases n <;> simp_all [Apart, kind, leafText?]

@[simp] theorem leafText?_span (d : Delimiter) (ns : List Node) : (d.span ns).leafText? = none := by
  cases d <;> rfl

/-- The row does not end in a leaf, so one may follow. -/
def EndsOpen (ns : List Node) : Prop := ∀ n ∈ ns.getLast?, n.leafText? = none

@[simp] theorem endsOpen_nil : EndsOpen [] := by
  simp [EndsOpen]

@[simp] theorem endsOpen_concat (ns : List Node) (n : Node) :
    EndsOpen (ns ++ [n]) ↔ n.leafText? = none := by
  simp [EndsOpen]

namespace IsRow

@[simp] theorem nil (P : Node → Prop) : IsRow P [] := ⟨List.forall_mem_nil _, .nil⟩

theorem mono (h : IsRow P ns) (hPQ : ∀ n, P n → Q n) : IsRow Q ns where
  all n hn := hPQ n (h.all n hn)
  apart := h.apart

theorem cons (hn : P n) (h : IsRow P ns) (hhead : ∀ m ∈ ns.head?, Apart n m) :
    IsRow P (n :: ns) where
  all := List.forall_mem_cons.mpr ⟨hn, h.all⟩
  apart := List.isChain_cons.mpr ⟨hhead, h.apart⟩

theorem append (h : IsRow P ns) (h' : IsRow P ms) (hend : EndsOpen ns) : IsRow P (ns ++ ms) where
  all := List.forall_mem_append.mpr ⟨h.all, h'.all⟩
  apart := h.apart.append h'.apart fun n hn _ _ => apart_of_left (hend n hn)

theorem concat (h : IsRow P ns) (hn : P n) (hspan : n.leafText? = none) : IsRow P (ns ++ [n]) where
  all := List.forall_mem_append.mpr ⟨h.all, by simpa using hn⟩
  apart := by
    refine h.apart.append (.singleton n) fun m _ n' hn' => ?_
    obtain rfl : n = n' := by simpa using hn'
    exact apart_of_right hspan

end IsRow

/-! ## Links of a page -/

theorem anyHasLink_iff {target : String} {ns : List Node} :
    anyHasLink target ns = true ↔ ∃ n ∈ ns, n.hasLink target = true := by
  rw [anyHasLink_eq_any, List.any_eq_true]

theorem IsLeaf.isWikiWord {target : String} (h : IsLeaf n) (hlink : n.hasLink target = true) :
    IsWikiWord target.toList := by
  cases n with
  | link s =>
    obtain rfl : s = target := by simpa [hasLink] using hlink
    exact h
  | text s => cases hlink
  | _ => cases h

/-- If the links of children are wiki words, so are those of a span. -/
theorem IsSpan.isWikiWord {target : String} {d : Delimiter} (h : IsSpan d P n)
    (hP : ∀ m, P m → m.hasLink target = true → IsWikiWord target.toList)
    (hlink : n.hasLink target = true) : IsWikiWord target.toList := by
  obtain ⟨ns, rfl, -, hrow⟩ := h
  have hany : anyHasLink target ns = true := by cases d <;> exact hlink
  obtain ⟨m, hm, hmlink⟩ := anyHasLink_iff.mp hany
  exact hP m (hrow.all m hm) hmlink

theorem IsInline.isWikiWord {target : String} (h : IsInline n) (hlink : n.hasLink target = true) :
    IsWikiWord target.toList := by
  rcases h with hleaf | ⟨d, hspan⟩
  · exact hleaf.isWikiWord hlink
  · refine hspan.isWikiWord (fun m hm hmlink => ?_) hlink
    rcases hm with hleaf | hnested
    · exact hleaf.isWikiWord hmlink
    · exact hnested.isWikiWord (fun _ hleaf => hleaf.isWikiWord) hmlink

theorem IsBlock.isWikiWord {target : String} (h : IsBlock n) (hlink : n.hasLink target = true) :
    IsWikiWord target.toList := by
  have hchildren {ns : List Node} (hrow : IsRow IsInline ns) (hany : anyHasLink target ns = true) :
      IsWikiWord target.toList := by
    obtain ⟨m, hm, hmlink⟩ := anyHasLink_iff.mp hany
    exact (hrow.all m hm).isWikiWord hmlink
  cases h with
  | header _ hrow => exact hchildren hrow hlink
  | paragraph hrow => exact hchildren hrow hlink

/-- Every link of a page names a wiki word. -/
theorem IsPage.isWikiWord {target : String} (h : IsPage n) (hlink : n.hasLink target = true) :
    IsWikiWord target.toList := by
  obtain ⟨hfirst, hlater⟩ := h
  obtain ⟨m, hm, hmlink⟩ := anyHasLink_iff.mp hlink
  rcases List.mem_cons.mp hm with rfl | hm
  · exact hfirst.isWikiWord hmlink
  · exact (hlater m hm).1.isWikiWord hmlink

end Node

end WikiMarkup
