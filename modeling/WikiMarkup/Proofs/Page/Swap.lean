import WikiMarkup.Proofs.Inline.Swap
import WikiMarkup.Proofs.Page.Parse

/-!
# Pages with the delimiters exchanged

Bold and italics have rules of their own, written out separately, but they are treated alike: if all
delimiters of a page are exchanged for the other one, its tree has bold and italics exchanged, and a
page that cannot be read fails at the same place.
-/

namespace WikiMarkup

open Node

/-! ## Lines -/

section Line

variable {line : List Char}

theorem content_map_swapDelim (line : List Char) :
    content (line.map swapDelim) = (content line).map swapDelim := by
  have hcr : (line.map swapDelim).getLast? = some '\r' ↔ line.getLast? = some '\r' := by
    rw [List.getLast?_map]
    cases line.getLast? <;> simp [swapDelim_eq_iff '\r' rfl]
  unfold content
  split
  · next h => rw [if_pos (hcr.mp h), List.map_dropLast]
  · next h => rw [if_neg (mt hcr.mpr h)]

theorem isSpacing_comp_swapDelim : isSpacing ∘ swapDelim = isSpacing := by
  funext c
  rw [Function.comp_apply, Bool.eq_iff_iff]
  simp [isSpacing, swapDelim_eq_iff ' ' rfl, swapDelim_eq_iff '\t' rfl]

theorem marks_map_swapDelim (line : List Char) : marks (line.map swapDelim) = marks line := by
  have hmark : (· == '!') ∘ swapDelim = (· == '!') := by
    funext c
    rw [Function.comp_apply, Bool.eq_iff_iff]
    simp [swapDelim_eq_iff '!' rfl]
  rw [marks, List.takeWhile_map, hmark, List.length_map, marks]

theorem behindMarks_map_swapDelim (line : List Char) :
    behindMarks (line.map swapDelim) = (behindMarks line).map swapDelim := by
  rw [behindMarks, marks_map_swapDelim, ← List.map_drop, List.dropWhile_map,
    isSpacing_comp_swapDelim, behindMarks]

theorem title?_map_swapDelim (line : List Char) : title? (line.map swapDelim) =
    (title? line).map fun found => (found.1, found.2.map swapDelim) := by
  simp only [title?_eq, behindMarks_map_swapDelim, marks_map_swapDelim, List.map_eq_nil_iff]
  split
  · rfl
  · rw [Option.map_map]
    rfl

theorem isBlankLine_map_swapDelim (line : List Char) :
    isBlankLine (line.map swapDelim) = isBlankLine line := by
  rw [isBlankLine, content_map_swapDelim, List.all_map, isSpacing_comp_swapDelim, isBlankLine]

/-- The block of the exchanged line is the mirror image of that of the line. -/
theorem lineBlock?_map_swapDelim (h : '\n' ∉ line) :
    lineBlock? (line.map swapDelim) = (lineBlock? line).map Node.swap := by
  have hlf := not_mem_content h
  rw [lineBlock?, lineBlock?, content_map_swapDelim, title?_map_swapDelim]
  simp only [blocked_map_swapDelim]
  split
  · rfl
  · cases htitle : title? (content line) with
    | none =>
      rw [Option.map_none, Option.map_some, swap, swapAll_eq_map, ← scan_map_swapDelim hlf]
    | some found =>
      have htitleLf := not_mem_title hlf htitle
      rw [Option.map_some, Option.map_some, swap, swapAll_eq_map, ← scan_map_swapDelim htitleLf]

end Line

/-! ## Pages -/

namespace Page

theorem linesOf_map_swapDelim (cs : List Char) :
    linesOf (cs.map swapDelim) = (linesOf cs).map (List.map swapDelim) := by
  induction cs with
  | nil => rfl
  | cons c cs ih =>
    have hlf : (swapDelim c == '\n') = (c == '\n') := by
      rw [Bool.eq_iff_iff]
      simp [swapDelim_eq_iff '\n' rfl]
    rw [List.map_cons, linesOf, linesOf, List.splitOn_cons_eq_if_modifyHead,
      List.splitOn_cons_eq_if_modifyHead, hlf, ← linesOf, ← linesOf, ih]
    split
    · rfl
    · cases linesOf cs <;> rfl

theorem unlines_map_swapDelim (lines : List (List Char)) :
    unlines (lines.map (List.map swapDelim)) = (unlines lines).map swapDelim := by
  induction lines with
  | nil => rfl
  | cons line lines ih =>
    rw [List.map_cons, unlines_cons, unlines_cons, ih, List.map_append, List.map_cons]
    rfl

variable {line : List Char} {lines : List (List Char)}

theorem isReadable_map_swapDelim (h : '\n' ∉ line) :
    isReadable (line.map swapDelim) = isReadable line := by
  rw [isReadable, lineBlock?_map_swapDelim h, Option.isSome_map, isReadable]

theorem laterBlocks_map_swapDelim (h : ∀ l ∈ lines, '\n' ∉ l) :
    laterBlocks (lines.map (List.map swapDelim)) = (laterBlocks lines).map Node.swap := by
  induction lines with
  | nil => rfl
  | cons line lines ih =>
    have hrest := ih fun l hl => h l (List.mem_cons_of_mem line hl)
    have hsame := isBlankLine_map_swapDelim line
    rw [List.map_cons]
    cases hblank : isBlankLine line with
    | true =>
      rw [hblank] at hsame
      rw [laterBlocks_cons_of_isBlankLine hsame, laterBlocks_cons_of_isBlankLine hblank, hrest]
    | false =>
      rw [hblank] at hsame
      rw [laterBlocks_cons hsame, laterBlocks_cons hblank, hrest,
        lineBlock?_map_swapDelim (h line (List.mem_cons_self ..)), Option.toList_map,
        List.map_append]

theorem blocks_map_swapDelim (h : ∀ l ∈ lines, '\n' ∉ l) :
    blocks (lines.map (List.map swapDelim)) = (blocks lines).map Node.swap := by
  cases lines with
  | nil => rfl
  | cons line lines =>
    rw [List.map_cons, blocks, blocks, lineBlock?_map_swapDelim (h line (List.mem_cons_self ..)),
      laterBlocks_map_swapDelim fun l hl => h l (List.mem_cons_of_mem line hl), Option.toList_map,
      List.map_append]

/-- Reading the exchanged page gives the tree of the page with bold and italics exchanged, or the
failure of the page. -/
theorem parse_map_swapDelim (markup : String) :
    parse (markup.map swapDelim) = (parse markup).map Node.swap := by
  have hlines : linesOf (markup.map swapDelim).toList =
      (linesOf markup.toList).map (List.map swapDelim) := by
    rw [String.toList_map, linesOf_map_swapDelim]
  have hlf : ∀ l ∈ linesOf markup.toList, '\n' ∉ l := fun l hl => not_mem_of_mem_linesOf hl
  have hsame : ∀ l ∈ linesOf markup.toList, isReadable (l.map swapDelim) = isReadable l :=
    fun l hl => isReadable_map_swapDelim (hlf l hl)
  rcases readable_or_split (linesOf markup.toList) with
    hall | ⟨before, line, after, hsplit, hbefore, hline⟩
  · have hall' : ∀ l ∈ linesOf (markup.map swapDelim).toList, isReadable l := by
      rw [hlines, List.forall_mem_map]
      intro l hl
      rw [hsame l hl]
      exact hall l hl
    rw [parse_of_readable hall', parse_of_readable hall, hlines, blocks_map_swapDelim hlf,
      Except.map, swap, swapAll_eq_map]
  · rw [hsplit] at hlines hsame
    rw [List.map_append, List.map_cons] at hlines
    have hbefore' : ∀ l ∈ before.map (List.map swapDelim), isReadable l := by
      rw [List.forall_mem_map]
      intro l hl
      rw [hsame l (List.mem_append_left _ hl)]
      exact hbefore l hl
    have hline' : ¬isReadable (line.map swapDelim) := by
      rwa [hsame line (by simp)]
    rw [parse_of_not_readable hlines hbefore' hline', parse_of_not_readable hsplit hbefore hline,
      unlines_map_swapDelim, byteSize_map_swapDelim, List.length_map]
    rfl

end Page

end WikiMarkup
