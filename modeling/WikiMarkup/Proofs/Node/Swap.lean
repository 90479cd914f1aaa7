import WikiMarkup.Proofs.Node.Shape

/-!
# Bold and italics exchanged

The mirror image of a tree has italics where the tree has bold, and bold where it has italics. Texts
and links stay as they are, since they hold no delimiters.
-/

namespace WikiMarkup

namespace Node

mutual

/-- The tree with bold and italics exchanged. -/
def swap : Node → Node
  | .text s => .text s
  | .link s => .link s
  | .bold cs => .italics (swapAll cs)
  | .italics cs => .bold (swapAll cs)
  | .header level cs => .header level (swapAll cs)
  | .paragraph cs => .paragraph (swapAll cs)
  | .document cs => .document (swapAll cs)

/-- Nodes with bold and italics exchanged in each. -/
def swapAll : List Node → List Node
  | [] => []
  | n :: ns => n.swap :: swapAll ns

end

theorem swapAll_eq_map (ns : List Node) : swapAll ns = ns.map swap := by
  induction ns with
  | nil => rfl
  | cons n ns ih => rw [swapAll, ih, List.map_cons]

theorem IsLeaf.swap_eq {n : Node} (h : IsLeaf n) : n.swap = n := by
  cases n with
  | text s => rfl
  | link s => rfl
  | _ => cases h

end Node

namespace Delimiter

theorem other_inj {d e : Delimiter} : d.other = e.other ↔ d = e := by
  cases d <;> cases e <;> decide

@[simp] theorem swap_span (d : Delimiter) (ns : List Node) :
    (d.span ns).swap = d.other.span (ns.map Node.swap) := by
  cases d <;> simp [span, other, Node.swap, Node.swapAll_eq_map]

end Delimiter

/-- A delimiter becomes the other one, and any other character stays. -/
def swapDelim (c : Char) : Char := if c = '*' then '/' else if c = '/' then '*' else c

section Chars

variable {c : Char}

@[simp] theorem swapDelim_char (d : Delimiter) : swapDelim d.char = d.other.char := by
  cases d <;> rfl

theorem swapDelim_of_not_delim (h : Delimiter.ofChar? c = none) : swapDelim c = c := by
  rw [Delimiter.ofChar?_eq_none_iff] at h
  exact (if_neg (h .star)).trans (if_neg (h .slash))

/-- Exchanging the delimiters keeps all other characters apart from them. -/
theorem swapDelim_eq_iff (c' : Char) (h : Delimiter.ofChar? c' = none) :
    swapDelim c = c' ↔ c = c' := by
  cases hc : Delimiter.ofChar? c with
  | none => rw [swapDelim_of_not_delim hc]
  | some d =>
    have hne := Delimiter.ofChar?_eq_none_iff.mp h
    rw [Delimiter.char_of_ofChar? hc, swapDelim_char]
    exact ⟨fun heq => absurd heq.symm (hne d.other), fun heq => absurd heq.symm (hne d)⟩

@[simp] theorem utf8Size_swapDelim (c : Char) : (swapDelim c).utf8Size = c.utf8Size := by
  cases hc : Delimiter.ofChar? c with
  | none => rw [swapDelim_of_not_delim hc]
  | some d =>
    rw [Delimiter.char_of_ofChar? hc, swapDelim_char]
    cases d <;> rfl

@[simp] theorem byteSize_map_swapDelim (cs : List Char) :
    Text.byteSize (cs.map swapDelim) = Text.byteSize cs := by
  induction cs with
  | nil => rfl
  | cons c cs ih => simp [ih]

end Chars

end WikiMarkup
