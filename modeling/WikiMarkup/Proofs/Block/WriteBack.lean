import WikiMarkup.Proofs.Block.Line
import WikiMarkup.Proofs.Inline.WriteBack

/-!
# Blocks written back

The markup of a block is a line that is the same block again. Closing the spans of a line neither
makes a header of a paragraph nor a blank line of another, because the line stays the same up to its
first delimiter.
-/

namespace WikiMarkup

open Node

variable {line title : List Char} {level : HeaderLevel} {n : Node}

/-- A paragraph stays one. -/
theorem title?_closed_eq_none (h : title? line = none) : title? (closed line) = none := by
  obtain ⟨front, ⟨hline, hclosed⟩ | ⟨d, rest, rest', hline, hclosed⟩⟩ :=
    exists_eq_append_closed line
  · rw [hclosed, ← hline, h]
  · rw [hline, title?_append_delim, Option.map_eq_none_iff] at h
    rw [hclosed, title?_append_delim, h]
    rfl

theorem head?_closed (line : List Char) : (closed line).head? = line.head? := by
  obtain ⟨front, ⟨hline, hclosed⟩ | ⟨d, rest, rest', hline, hclosed⟩⟩ :=
    exists_eq_append_closed line
  · rw [hclosed, ← hline]
  · rw [hclosed, hline]
    cases front <;> rfl

/-- A header stays one, with one space before its title. -/
theorem title?_header (h : title? line = some (level, title)) :
    title? (level.marker ++ ' ' :: closed title) = some (level, closed title) := by
  obtain ⟨found, -, rfl, rfl, hne⟩ := Rule.eq_of_title? h
  have hhead := head?_closed (found.2.dropWhile isSpacing)
  obtain ⟨c, cs, hcs⟩ := List.exists_cons_of_ne_nil hne
  have hc : isSpacing c = false := by
    have hnot := List.head?_dropWhile_not isSpacing found.2
    rw [hcs] at hnot
    exact hnot
  rw [hcs, List.head?_cons] at hhead
  obtain ⟨cs', hcs'⟩ := List.head?_eq_some_iff.mp hhead
  have hspace : (' ' :: closed (found.2.dropWhile isSpacing)).dropWhile isSpacing =
      closed (found.2.dropWhile isSpacing) := by
    rw [List.dropWhile_cons_of_pos rfl, hcs, hcs', List.dropWhile_cons_of_neg (by simp [hc])]
  have hclosed : closed (found.2.dropWhile isSpacing) ≠ [] := by
    rw [hcs, hcs']
    exact List.cons_ne_nil c cs'
  rw [title?, marker?_marker _ (by simp), Option.bind_some]
  simp only [hspace, hclosed, if_false]

/-- Closing the spans of a line does not make it blank. -/
theorem all_isSpacing_closed (h : (closed line).all isSpacing) : line.all isSpacing := by
  obtain ⟨front, ⟨hline, hclosed⟩ | ⟨d, rest, rest', hline, hclosed⟩⟩ :=
    exists_eq_append_closed line
  · rwa [hclosed, ← hline] at h
  · have hd := List.all_eq_true.mp h d.char (by simp [hclosed])
    rw [isSpacing_char] at hd
    cases hd

/-- The markup of a header is the same header. -/
theorem lineBlock?_markup_header (h : '\n' ∉ line) (hblocked : ¬Blocked line)
    (htitle : title? line = some (level, title)) :
    (header level (scan title)).markup = level.marker ++ ' ' :: closed title ∧
      lineBlock? ((header level (scan title)).markup ++ ['\r']) =
        some (header level (scan title)) := by
  have hmarkup : (header level (scan title)).markup = level.marker ++ ' ' :: closed title := by
    rw [markup, markups_scan (not_mem_title h htitle)]
  have hopen : ¬Blocked (level.marker ++ ' ' :: closed title) := by
    rw [← blocked_title_iff (title?_header htitle)]
    exact not_blocked_closed (mt (blocked_title_iff htitle).mp hblocked)
  refine ⟨hmarkup, ?_⟩
  rw [lineBlock?, content_concat, hmarkup, if_neg hopen, title?_header htitle]
  simp only [scan_closed]

/-- The markup of a paragraph is the same paragraph. -/
theorem lineBlock?_markup_paragraph (h : '\n' ∉ line) (hblocked : ¬Blocked line)
    (htitle : title? line = none) : (paragraph (scan line)).markup = closed line ∧
      lineBlock? ((paragraph (scan line)).markup ++ ['\r']) = some (paragraph (scan line)) := by
  have hmarkup : (paragraph (scan line)).markup = closed line := markups_scan h
  refine ⟨hmarkup, ?_⟩
  rw [lineBlock?, content_concat, hmarkup, if_neg (not_blocked_closed hblocked),
    title?_closed_eq_none htitle]
  simp only [scan_closed]

/-- The markup of the block of a line has no line feed, is the same block, and is not blank unless
the line is. -/
theorem lineBlock?_markup (h : '\n' ∉ line) (hblock : lineBlock? line = some n) :
    '\n' ∉ n.markup ∧ lineBlock? (n.markup ++ ['\r']) = some n ∧
      (isBlankLine (n.markup ++ ['\r']) → isBlankLine line) := by
  have hlf := not_mem_content h
  rw [isBlankLine, isBlankLine, content_concat]
  obtain ⟨hopen, ⟨level, title, htitle, rfl⟩ | ⟨htitle, rfl⟩⟩ := of_lineBlock?_eq_some hblock
  · obtain ⟨hmarkup, hsame⟩ := lineBlock?_markup_header hlf hopen htitle
    refine ⟨?_, hsame, ?_⟩
    · have hclosed := not_mem_closed (not_mem_title hlf htitle)
      rw [hmarkup]
      cases level <;> simp [HeaderLevel.marker, hclosed]
    · have hmark : '!' ∈ level.marker := by cases level <;> decide
      rw [hmarkup]
      intro hblank
      exact absurd (List.all_eq_true.mp hblank '!' (List.mem_append_left _ hmark)) (by decide)
  · obtain ⟨hmarkup, hsame⟩ := lineBlock?_markup_paragraph hlf hopen htitle
    rw [hmarkup] at hsame ⊢
    exact ⟨not_mem_closed hlf, hsame, all_isSpacing_closed⟩

end WikiMarkup
