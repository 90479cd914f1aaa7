import WikiMarkup.Proofs.Format.Escape
import WikiMarkup.Proofs.Page.Parse

/-!
# Either line end

A line may end with a line feed, or with a carriage return and a line feed. What a page becomes
depends on the contents of its lines, and the carriage returns of line ends are no part of these. So
a page comes to the same whichever way its lines end, but for the byte at which a failure is found:
the carriage returns before it count.
-/

namespace WikiMarkup

/-- A carriage return at the end of a line is no part of what the line holds. -/
theorem content_concat_of_not_mem {line : List Char} (h : '\r' ∉ line) :
    content (line ++ ['\r']) = content line := by
  rw [content_concat, content, if_neg fun hlast => h (List.mem_of_getLast? hlast)]

namespace Page

/-! ## Lines of the same contents -/

section Contents

variable {line line' : List Char} {lines lines' : List (List Char)}

theorem lineBlock?_congr (h : content line = content line') :
    lineBlock? line = lineBlock? line' := by
  simp only [lineBlock?, h]

theorem isReadable_congr (h : content line = content line') :
    isReadable line = isReadable line' := by
  rw [isReadable, isReadable, lineBlock?_congr h]

theorem laterBlocks_congr (h : lines.map content = lines'.map content) :
    laterBlocks lines = laterBlocks lines' := by
  induction lines generalizing lines' with
  | nil =>
    obtain rfl : lines' = [] := List.map_eq_nil_iff.mp h.symm
    rfl
  | cons line lines ih =>
    obtain ⟨line', lines', rfl, hline, hlines⟩ := List.map_eq_cons_iff.mp h.symm
    have hblank : isBlankLine line' = isBlankLine line := by rw [isBlankLine, hline, isBlankLine]
    have hrest := ih hlines.symm
    cases hcase : isBlankLine line with
    | true =>
      rw [hcase] at hblank
      rw [laterBlocks_cons_of_isBlankLine hcase, laterBlocks_cons_of_isBlankLine hblank, hrest]
    | false =>
      rw [hcase] at hblank
      rw [laterBlocks_cons hcase, laterBlocks_cons hblank, lineBlock?_congr hline, hrest]

/-- The blocks of lines depend on the contents of the lines only. -/
theorem blocks_congr (h : lines.map content = lines'.map content) :
    blocks lines = blocks lines' := by
  cases lines with
  | nil =>
    obtain rfl : lines' = [] := List.map_eq_nil_iff.mp h.symm
    rfl
  | cons line lines =>
    obtain ⟨line', lines', rfl, hline, hlines⟩ := List.map_eq_cons_iff.mp h.symm
    rw [blocks, blocks, lineBlock?_congr hline, laterBlocks_congr hlines]

theorem forall_isReadable_congr (h : lines.map content = lines'.map content)
    (hread : ∀ l ∈ lines, isReadable l) : ∀ l ∈ lines', isReadable l := by
  intro l' hl'
  have hmem : content l' ∈ lines.map content := h ▸ List.mem_map_of_mem hl'
  obtain ⟨l, hl, hsame⟩ := List.mem_map.mp hmem
  rw [← isReadable_congr hsame]
  exact hread l hl

end Contents

/-! ## Lines with carriage returns -/

/-- The page with a carriage return before each line feed. -/
def withReturns (markup : String) : String :=
  String.ofList (Format.replaceAll '\n' ['\r', '\n'] markup.toList)

/-- A carriage return at the end of each line but the last, which no line feed ends. -/
def returned : List (List Char) → List (List Char)
  | [] => []
  | [line] => [line]
  | line :: next :: lines => (line ++ ['\r']) :: returned (next :: lines)

theorem returned_modifyHead (c : Char) (lines : List (List Char)) :
    returned (lines.modifyHead (c :: ·)) = (returned lines).modifyHead (c :: ·) := by
  rcases lines with _ | ⟨line, _ | ⟨next, lines⟩⟩ <;> rfl

theorem returned_append (before : List (List Char)) (line : List Char)
    (after : List (List Char)) : returned (before ++ line :: after) =
      before.map (· ++ ['\r']) ++ returned (line :: after) := by
  induction before with
  | nil => rfl
  | cons first before ih =>
    rw [List.map_cons, List.cons_append, List.cons_append, ← ih]
    cases before <;> rfl

/-- The carriage returns belong to the line ends. -/
theorem map_content_returned {lines : List (List Char)} (h : ∀ l ∈ lines, '\r' ∉ l) :
    (returned lines).map content = lines.map content := by
  fun_induction returned lines with
  | case1 => rfl
  | case2 line => rfl
  | case3 line next lines ih =>
    rw [List.map_cons, ih fun l hl => h l (List.mem_cons_of_mem line hl),
      content_concat_of_not_mem (h line (List.mem_cons_self ..)), ← List.map_cons]

theorem linesOf_withReturns (cs : List Char) :
    linesOf (Format.replaceAll '\n' ['\r', '\n'] cs) = returned (linesOf cs) := by
  induction cs with
  | nil => rfl
  | cons c cs ih =>
    by_cases hc : c = '\n'
    · subst hc
      have hreturn : linesOf ['\r'] = [['\r']] := rfl
      have hline : linesOf ('\n' :: cs) = [] :: linesOf cs := linesOf_append [] cs
      obtain ⟨next, lines, hnext⟩ := List.exists_cons_of_ne_nil (linesOf_ne_nil cs)
      calc linesOf (['\r'] ++ '\n' :: Format.replaceAll '\n' ['\r', '\n'] cs)
        _ = ['\r'] :: returned (linesOf cs) := by rw [linesOf_append, ih, hreturn]; rfl
        _ = returned (linesOf ('\n' :: cs)) := by rw [hline, hnext]; rfl
    · have hcons (xs : List Char) : linesOf (c :: xs) = (linesOf xs).modifyHead (c :: ·) := by
        rw [linesOf, List.splitOn_cons_eq_if_modifyHead, if_neg (by simpa using hc), linesOf]
      have hreplace : Format.replaceAll '\n' ['\r', '\n'] (c :: cs) =
          c :: Format.replaceAll '\n' ['\r', '\n'] cs := by
        simp [Format.replaceAll, hc]
      rw [hreplace, hcons, hcons, ih, returned_modifyHead]

/-- Each line takes one byte more. -/
theorem byteSize_unlines_map (lines : List (List Char)) :
    Text.byteSize (unlines (lines.map (· ++ ['\r']))) =
      Text.byteSize (unlines lines) + lines.length := by
  have hcr : '\r'.utf8Size = 1 := rfl
  induction lines with
  | nil => rfl
  | cons line lines ih =>
    simp only [List.map_cons, unlines_cons, List.append_assoc, List.cons_append, List.nil_append,
      Text.byteSize_append, Text.byteSize_cons, ih, hcr, List.length_cons]
    omega

/-- A page without carriage returns has the tree that it has with one before each line feed, or both
fail in the same line and column, and at a byte further on by one for each earlier line. -/
theorem parse_withReturns (markup : String) (h : '\r' ∉ markup.toList) :
    (∃ t, parse markup = .ok t ∧ parse (withReturns markup) = .ok t) ∨
    ∃ offset earlier column, parse markup = .error (.noMatch offset (earlier + 1) column) ∧
      parse (withReturns markup) =
        .error (.noMatch (offset + earlier) (earlier + 1) column) := by
  have hlines : linesOf (withReturns markup).toList = returned (linesOf markup.toList) := by
    rw [withReturns, String.toList_ofList, linesOf_withReturns]
  have hplain : ∀ l ∈ linesOf markup.toList, '\r' ∉ l := fun l hl hcr =>
    h (mem_of_mem_linesOf hl hcr)
  have hsame := map_content_returned hplain
  rcases readable_or_split (linesOf markup.toList) with
    hall | ⟨before, line, after, hsplit, hbefore, hline⟩
  · have hall' : ∀ l ∈ linesOf (withReturns markup).toList, isReadable l := by
      rw [hlines]
      exact forall_isReadable_congr hsame.symm hall
    refine .inl ⟨_, parse_of_readable hall, ?_⟩
    rw [parse_of_readable hall', hlines, blocks_congr hsame]
  · rw [hsplit] at hplain
    rw [hsplit, returned_append] at hlines
    have htail := map_content_returned fun l hl => hplain l (List.mem_append_right before hl)
    obtain ⟨line', after', hafter, hcontent, -⟩ := List.map_eq_cons_iff.mp htail
    rw [hafter] at hlines
    have hbefore' : ∀ l ∈ before.map (· ++ ['\r']), isReadable l := by
      rw [List.forall_mem_map]
      intro l hl
      rw [isReadable_congr (content_concat_of_not_mem (hplain l (List.mem_append_left _ hl)))]
      exact hbefore l hl
    have hline' : ¬isReadable line' := by rwa [isReadable_congr hcontent]
    refine .inr ⟨_, _, _, parse_of_not_readable hsplit hbefore hline, ?_⟩
    rw [parse_of_not_readable hlines hbefore' hline', byteSize_unlines_map, List.length_map]

/-- A page of three lines keeps its tree, and a failure in the third line is two bytes further
on. -/
theorem parse_withReturns_third_line :
    ('\r' ∉ "!! a\n\n*b".toList ∧
      parse "!! a\n\n*b" =
        .ok (.document [.header .h3 [.text "a"], .paragraph [.bold [.text "b"]]]) ∧
      parse "!! a\r\n\r\n*b" =
        .ok (.document [.header .h3 [.text "a"], .paragraph [.bold [.text "b"]]])) ∧
    '\r' ∉ "é\n\n**".toList ∧ parse "é\n\n**" = .error (.noMatch 4 3 1) ∧
    parse "é\r\n\r\n**" = .error (.noMatch 6 3 1) := by
  constructor
  · have hcr : '\r' ∉ "!! a\n\n*b".toList := by decide
    have hparse : parse "!! a\n\n*b" =
        .ok (.document [.header .h3 [.text "a"], .paragraph [.bold [.text "b"]]]) := by
      have hblocks : blocks (linesOf "!! a\n\n*b".toList) =
          [.header .h3 (Rule.leaves ['a']), .paragraph [.bold (Rule.leaves ['b'])]] := rfl
      rw [parse_eq_ok_iff, hblocks, Rule.leaves_lowercase (by decide) rfl,
        Rule.leaves_lowercase (by decide) rfl]
      exact ⟨by decide, rfl⟩
    have hreturns : withReturns "!! a\n\n*b" = "!! a\r\n\r\n*b" := by decide
    rcases parse_withReturns "!! a\n\n*b" hcr with ⟨t, ht, hreturned⟩ | ⟨_, _, _, hfail, -⟩
    · rw [hparse] at ht
      cases ht
      rw [hreturns] at hreturned
      exact ⟨hcr, hparse, hreturned⟩
    · rw [hparse] at hfail
      cases hfail
  · have hcr : '\r' ∉ "é\n\n**".toList := by decide
    have hsplit : linesOf "é\n\n**".toList = ["é".toList, "".toList] ++ "**".toList :: [] := by
      decide
    have hparse : parse "é\n\n**" = .error (.noMatch 4 3 1) :=
      parse_of_not_readable hsplit (by decide) (by decide)
    have hreturns : withReturns "é\n\n**" = "é\r\n\r\n**" := by decide
    rcases parse_withReturns "é\n\n**" hcr with
      ⟨t, ht, -⟩ | ⟨offset, earlier, column, hfail, hreturned⟩
    · rw [hparse] at ht
      cases ht
    · rw [hparse] at hfail
      cases hfail
      rw [hreturns] at hreturned
      exact ⟨hcr, hparse, hreturned⟩

end Page

end WikiMarkup
