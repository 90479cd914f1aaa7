import WikiMarkup.Proofs.Block.WriteBack
import WikiMarkup.Proofs.Inline.Shape
import WikiMarkup.Proofs.Page.Parse

/-!
# The shape of a page

Whatever a page holds, its tree is a document of headers and paragraphs in shape. Only the first
line can leave a blank paragraph, and links are words that can stand in an attribute as they are.
-/

namespace WikiMarkup

open Node

variable {line : List Char} {n : Node}

/-- A line that is not empty has nodes. -/
theorem scan_ne_nil (h : '\n' ∉ line) (hne : line ≠ []) : scan line ≠ [] := by
  intro hnil
  have hclosed : closed line = [] := by rw [← markups_scan h, hnil, markups]
  have hhead := head?_closed line
  rw [hclosed, List.head?_nil, eq_comm, List.head?_eq_none_iff] at hhead
  exact hne hhead

theorem isBlock_of_lineBlock? (h : '\n' ∉ line) (hblock : lineBlock? line = some n) :
    IsBlock n := by
  have hlf := not_mem_content h
  obtain ⟨hopen, ⟨level, title, htitle, rfl⟩ | ⟨htitle, rfl⟩⟩ := of_lineBlock?_eq_some hblock
  · have htitleOpen := mt (blocked_title_iff htitle).mp hopen
    have htitleLf := not_mem_title hlf htitle
    obtain ⟨-, -, -, -, hne⟩ := Rule.eq_of_title? htitle
    exact .header (scan_ne_nil htitleLf hne) (isRow_scan htitleLf htitleOpen)
  · exact .paragraph (isRow_scan hlf hopen)

/-- The markup of a blank paragraph is a blank line. -/
theorem Node.IsBlankParagraph.isBlankLine_markup (h : IsBlankParagraph n) :
    isBlankLine (n.markup ++ ['\r']) := by
  rw [isBlankLine, content_concat, all_isSpacing_iff]
  cases h with
  | empty => simp [markup, markups]
  | blanks hblanks => simpa [markup] using hblanks

/-- A line that is not blank does not become a blank paragraph. -/
theorem not_isBlankParagraph_of_lineBlock? (h : '\n' ∉ line) (hblock : lineBlock? line = some n)
    (hblank : isBlankLine line = false) : ¬IsBlankParagraph n := by
  intro hn
  obtain ⟨-, -, hsame⟩ := lineBlock?_markup h hblock
  exact Bool.false_ne_true (hblank.symm.trans (hsame hn.isBlankLine_markup))

namespace Page

/-- The tree of a page is in shape, and no link of it holds the quote that would end its attribute
in the HTML of the page. -/
theorem isPage_parse {markup : String} {t : Node} (h : parse markup = .ok t) :
    IsPage t ∧ ∀ target, t.hasLink target → IsWikiWord target.toList ∧ '\'' ∉ target.toList := by
  obtain ⟨first, later, n, -, hlf, -, hn, rfl⟩ := of_parse_eq_ok h
  have hpage : IsPage (.document (n :: laterBlocks later)) := by
    refine .document (isBlock_of_lineBlock? (hlf first (List.mem_cons_self ..)) hn) ?_
    intro m hm
    obtain ⟨line, hline, hblank, hblock⟩ := exists_line_of_mem_laterBlocks hm
    have hlineLf := hlf line (List.mem_cons_of_mem first hline)
    exact ⟨isBlock_of_lineBlock? hlineLf hblock,
      not_isBlankParagraph_of_lineBlock? hlineLf hblock hblank⟩
  refine ⟨hpage, fun target htarget => ?_⟩
  have hword := hpage.isWikiWord htarget
  exact ⟨hword, fun hquote => absurd (hword.letters _ hquote) (by decide)⟩

/-- A blank first line, a header, and a link in a span of a span. -/
theorem isPage_parse_nested_link :
    parse " \n!!a\n*b/AbCd" = .ok (.document [.paragraph [.text " "], .header .h3 [.text "a"],
      .paragraph [.bold [.text "b", .italics [.link "AbCd"]]]]) ∧
    IsPage (.document [.paragraph [.text " "], .header .h3 [.text "a"],
      .paragraph [.bold [.text "b", .italics [.link "AbCd"]]]]) ∧
    IsWikiWord "AbCd".toList ∧ '\'' ∉ "AbCd".toList := by
  have hparse : parse " \n!!a\n*b/AbCd" = .ok (.document [.paragraph [.text " "],
      .header .h3 [.text "a"], .paragraph [.bold [.text "b", .italics [.link "AbCd"]]]]) := by
    have hblocks : blocks (linesOf " \n!!a\n*b/AbCd".toList) =
        [.paragraph (Rule.leaves [' ']), .header .h3 (Rule.leaves ['a']), .paragraph
          [.bold (Rule.leaves ['b'] ++ [.italics (Rule.leaves "AbCd".toList)])]] := rfl
    have hspace : Rule.leaves [' '] = [.text " "] := by with_unfolding_all rfl
    have hlink : Rule.leaves "AbCd".toList = [.link "AbCd"] := by with_unfolding_all rfl
    rw [parse_eq_ok_iff, hblocks, hspace, hlink, Rule.leaves_lowercase (by decide) rfl,
      Rule.leaves_lowercase (by decide) rfl]
    exact ⟨by decide, rfl⟩
  obtain ⟨hpage, hlinks⟩ := isPage_parse hparse
  exact ⟨hparse, hpage, hlinks "AbCd" rfl⟩

end Page

end WikiMarkup
