import WikiMarkup.Proofs.Page.Parse

/-!
# Pages in a row

Pages compose line by line. The blocks of two pages, one after the other, are the blocks of both,
unless the second starts with a blank line; and a blank line that is not the first of a page adds
nothing to it.
-/

namespace WikiMarkup

namespace Page

/-- Spaces and tabs, and a carriage return at the end or none. -/
def IsBlank (line : String) : Prop :=
  ∃ blanks : List Char, (∀ c ∈ blanks, c = ' ' ∨ c = '\t') ∧
    (line.toList = blanks ∨ line.toList = blanks ++ ['\r'])

theorem isBlank_iff {line : String} : IsBlank line ↔ isBlankLine line.toList := by
  unfold isBlankLine content
  constructor
  · rintro ⟨blanks, hblanks, hline | hline⟩
    · have hcr : blanks.getLast? ≠ some '\r' := fun h => by
        simpa using hblanks _ (List.mem_of_getLast? h)
      rw [hline, if_neg hcr]
      exact all_isSpacing_iff.mpr hblanks
    · rw [hline, if_pos List.getLast?_concat, List.dropLast_concat]
      exact all_isSpacing_iff.mpr hblanks
  · intro h
    split at h
    · next hcr =>
      obtain ⟨front, hfront⟩ := List.getLast?_eq_some_iff.mp hcr
      rw [hfront, List.dropLast_concat] at h
      exact ⟨front, all_isSpacing_iff.mp h, .inr hfront⟩
    · exact ⟨line.toList, all_isSpacing_iff.mp h, .inl rfl⟩

theorem IsBlank.not_mem {line : String} (h : IsBlank line) : '\n' ∉ line.toList := by
  obtain ⟨blanks, hblanks, hline⟩ := h
  have hlf : '\n' ∉ blanks := fun hmem => by simpa using hblanks _ hmem
  rcases hline with hline | hline <;> rw [hline] <;> simp [hlf]

/-- If the first line is not blank, it counts like any later line. -/
theorem laterBlocks_eq_blocks {line : List Char} {lines : List (List Char)}
    (h : isBlankLine line = false) : laterBlocks (line :: lines) = blocks (line :: lines) := by
  rw [laterBlocks_eq_blocks_dropWhile, List.dropWhile_cons_of_neg (ne_true_of_eq_false h)]

theorem linesOf_concat (a b : String) :
    linesOf (a ++ "\n" ++ b).toList = linesOf a.toList ++ linesOf b.toList := by
  rw [← linesOf_append]
  simp

/-- One more line that is blank changes neither the tree nor the failure. -/
theorem parse_concat_blank (a : String) {w : String} (hw : IsBlank w) :
    parse (a ++ "\n" ++ w) = parse a := by
  have hblank := isBlank_iff.mp hw
  have hlines : linesOf (a ++ "\n" ++ w).toList = linesOf a.toList ++ [w.toList] := by
    rw [linesOf_concat, linesOf_of_not_mem hw.not_mem]
  rcases readable_or_split (linesOf a.toList) with hall | ⟨before, line, after, h, hbefore, hline⟩
  · have hall' : ∀ l ∈ linesOf (a ++ "\n" ++ w).toList, isReadable l := by
      intro l hl
      rw [hlines, List.mem_append, List.mem_singleton] at hl
      rcases hl with hl | rfl
      · exact hall l hl
      · exact isReadable_of_isBlankLine hblank
    rw [parse_of_readable hall, parse_of_readable hall', hlines, blocks_append (linesOf_ne_nil _),
      laterBlocks_cons_of_isBlankLine hblank]
    simp [laterBlocks]
  · rw [h, List.append_assoc, List.cons_append] at hlines
    rw [parse_of_not_readable h hbefore hline, parse_of_not_readable hlines hbefore hline]

/-- A blank line between two pages does not matter. -/
theorem parse_concat_blank_concat (a b : String) {w : String} (hw : IsBlank w) (t : Node) :
    parse (a ++ "\n" ++ w ++ "\n" ++ b) = .ok t ↔ parse (a ++ "\n" ++ b) = .ok t := by
  have hblank := isBlank_iff.mp hw
  have hblocks : blocks (linesOf a.toList ++ w.toList :: linesOf b.toList) =
      blocks (linesOf a.toList ++ linesOf b.toList) := by
    rw [blocks_append (linesOf_ne_nil _), blocks_append (linesOf_ne_nil _),
      laterBlocks_cons_of_isBlankLine hblank]
  rw [parse_eq_ok_iff, parse_eq_ok_iff, linesOf_concat, linesOf_concat, linesOf_concat,
    linesOf_of_not_mem hw.not_mem, List.append_assoc, List.singleton_append, hblocks]
  simp only [List.forall_mem_append, List.forall_mem_cons, isReadable_of_isBlankLine hblank,
    true_and]

/-- Two pages in a row have the blocks of both, if the second does not start with a blank line. A
blank line behind a page, and one between two pages, do not matter. -/
theorem parse_concat (a b w : String) :
    (∀ s t, parse a = .ok s → parse b = .ok t →
      (∀ first, (Page.lines b).head? = some first → ¬IsBlank first) →
      parse (a ++ "\n" ++ b) = .ok (.document (s.children ++ t.children))) ∧
    (IsBlank w → parse (a ++ "\n" ++ w) = parse a) ∧
    (IsBlank w → ∀ t,
      parse (a ++ "\n" ++ w ++ "\n" ++ b) = .ok t ↔ parse (a ++ "\n" ++ b) = .ok t) := by
  refine ⟨?_, parse_concat_blank a, parse_concat_blank_concat a b⟩
  intro s t hs ht hfirst
  obtain ⟨hreadA, rfl⟩ := parse_eq_ok_iff.mp hs
  obtain ⟨hreadB, rfl⟩ := parse_eq_ok_iff.mp ht
  obtain ⟨first, rest, hlines⟩ := List.exists_cons_of_ne_nil (linesOf_ne_nil b.toList)
  have hblank : isBlankLine first = false := by
    have hhead : (Page.lines b).head? = some (String.ofList first) := by
      rw [Page.lines, hlines]
      rfl
    have hnot := hfirst _ hhead
    rw [isBlank_iff, String.toList_ofList] at hnot
    exact eq_false_of_ne_true hnot
  have hlater : laterBlocks (linesOf b.toList) = blocks (linesOf b.toList) := by
    rw [hlines]
    exact laterBlocks_eq_blocks hblank
  rw [parse_eq_ok_iff, linesOf_concat, blocks_append (linesOf_ne_nil _), hlater]
  exact ⟨List.forall_mem_append.mpr ⟨hreadA, hreadB⟩, rfl⟩

/-- A title and a line below it, with and without a blank line in between. -/
theorem parse_concat_title : IsBlank " \t\r" ∧
    parse "!! a\nb" = .ok (.document [.header .h3 [.text "a"], .paragraph [.text "b"]]) ∧
    parse "!! a\n \t\r" = parse "!! a" ∧
    (∀ t, parse "!! a\n \t\r\nb" = .ok t ↔ parse "!! a\nb" = .ok t) := by
  have hblank : IsBlank " \t\r" := isBlank_iff.mpr (by decide)
  have htitle : parse "!! a" = .ok (.document [.header .h3 [.text "a"]]) := by
    have hblocks : blocks (linesOf "!! a".toList) = [.header .h3 (Rule.leaves ['a'])] := rfl
    rw [parse_eq_ok_iff, hblocks, Rule.leaves_lowercase (by decide) rfl]
    exact ⟨by decide, rfl⟩
  have hline : parse "b" = .ok (.document [.paragraph [.text "b"]]) := by
    have hblocks : blocks (linesOf "b".toList) = [.paragraph (Rule.leaves ['b'])] := rfl
    rw [parse_eq_ok_iff, hblocks, Rule.leaves_lowercase (by decide) rfl]
    exact ⟨by decide, rfl⟩
  obtain ⟨hboth, hbehind, hbetween⟩ := parse_concat "!! a" "b" " \t\r"
  refine ⟨hblank, hboth _ _ htitle hline ?_, hbehind hblank, hbetween hblank⟩
  intro first hfirst
  have hhead : (Page.lines "b").head? = some "b" := by decide
  rw [hhead] at hfirst
  cases hfirst
  rw [isBlank_iff]
  decide

end Page

end WikiMarkup
