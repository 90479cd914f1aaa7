import WikiMarkup.Proofs.Inline.Text
import WikiMarkup.Proofs.Page.Parse

/-!
# The text of a page

The tree of a page shows what its lines hold, line by line. A line adds its characters, less the
delimiters of spans and, if it is a header, less the marks and blanks before the title; only blank
lines after the first add nothing. So no character is lost, doubled or moved.
-/

namespace WikiMarkup

open Node

/-- The part of a line that is shown: what stands behind the marks of a header, or all of it. -/
def shownPart (line : List Char) : List Char :=
  if 2 ≤ marks line ∧ behindMarks line ≠ [] then behindMarks line else line

theorem shownPart_of_title? {line title : List Char} {level : HeaderLevel}
    (h : title? line = some (level, title)) : shownPart line = title := by
  obtain ⟨hstarts, -, hbehind⟩ := title?_eq_some_iff.mp h
  have hshown : shownPart line = behindMarks line := if_pos hstarts
  rw [hshown, hbehind]

theorem shownPart_of_title?_eq_none {line : List Char} (h : title? line = none) :
    shownPart line = line := if_neg (title?_eq_none_iff.mp h)

theorem shownPart_sublist (line : List Char) : (shownPart line).Sublist line := by
  unfold shownPart
  split
  · exact (List.dropWhile_sublist _).trans (List.drop_sublist _ line)
  · exact .refl line

/-- The block of a line shows the part of the line that is shown, without its delimiters. -/
theorem shown_of_lineBlock? {line : List Char} (h : '\n' ∉ line) {n : Node}
    (hblock : lineBlock? line = some n) : n.shown = undelimited (shownPart (content line)) := by
  have hlf := not_mem_content h
  obtain ⟨-, ⟨level, title, htitle, rfl⟩ | ⟨htitle, rfl⟩⟩ := of_lineBlock?_eq_some hblock
  · rw [shownPart_of_title? htitle]
    exact allShown_scan (not_mem_title hlf htitle)
  · rw [shownPart_of_title?_eq_none htitle]
    exact allShown_scan hlf

/-- A block shows nothing that is not in its line. -/
theorem shown_sublist_of_lineBlock? {line : List Char} {n : Node} (h : '\n' ∉ line)
    (hblock : lineBlock? line = some n) : n.shown.Sublist line := by
  rw [shown_of_lineBlock? h hblock]
  exact List.filter_sublist.trans ((shownPart_sublist _).trans (content_sublist line))

namespace Page

/-- What a line adds to the text of its page, unless it is skipped. -/
def lineText (line : String) : String :=
  String.ofList (undelimited (shownPart (content line.toList)))

/-- The text that lines add up to. Blank lines are skipped, but for the first line. -/
def joinedText : List String → String
  | [] => ""
  | first :: later =>
    lineText first ++ String.join ((later.filter fun l => !isBlankLine l.toList).map lineText)

theorem allShown_laterBlocks {later : List (List Char)} (h : ∀ l ∈ later, '\n' ∉ l)
    (hread : ∀ l ∈ later, isReadable l) :
    String.ofList (allShown (laterBlocks later)) = String.join
      (((later.map String.ofList).filter fun l => !isBlankLine l.toList).map lineText) := by
  induction later with
  | nil => rfl
  | cons line later ih =>
    have hrest := ih (fun l hl => h l (List.mem_cons_of_mem line hl))
      (fun l hl => hread l (List.mem_cons_of_mem line hl))
    cases hblank : isBlankLine line with
    | true =>
      rw [laterBlocks_cons_of_isBlankLine hblank, hrest]
      simp [hblank]
    | false =>
      obtain ⟨n, hn⟩ := Option.isSome_iff_exists.mp (hread line (List.mem_cons_self ..))
      have hline := shown_of_lineBlock? (h line (List.mem_cons_self ..)) hn
      rw [laterBlocks_cons hblank, hn, Option.toList_some, List.singleton_append, allShown,
        String.ofList_append, hline, hrest]
      simp [hblank, lineText]

/-- The text of a page is made of what its lines add. -/
theorem plainText_parse {markup : String} {t : Node} (h : parse markup = .ok t) :
    t.plainText = joinedText (lines markup) := by
  obtain ⟨first, later, n, hlines, hlf, hread, hn, rfl⟩ := of_parse_eq_ok h
  have hfirst := shown_of_lineBlock? (hlf first (List.mem_cons_self ..)) hn
  have hlater := allShown_laterBlocks (fun l hl => hlf l (List.mem_cons_of_mem first hl))
    (fun l hl => hread l (List.mem_cons_of_mem first hl))
  rw [plainText_eq, shown, allShown, String.ofList_append, hfirst, hlater, lines, hlines,
    List.map_cons, joinedText, lineText, String.toList_ofList]

/-- A blank line counts only if it is the first, and a span that is closed with the one around it
keeps its text. -/
theorem plainText_parse_blank_lines :
    parse "\t\n!!! *a/b*\r\n \nc" = .ok (.document [.paragraph [.text "\t"],
      .header .h2 [.bold [.text "a", .italics [.text "b"]]], .paragraph [.text "c"]]) ∧
    (document [.paragraph [.text "\t"], .header .h2 [.bold [.text "a", .italics [.text "b"]]],
      .paragraph [.text "c"]]).plainText = "\tabc" := by
  have hparse : parse "\t\n!!! *a/b*\r\n \nc" = .ok (.document [.paragraph [.text "\t"],
      .header .h2 [.bold [.text "a", .italics [.text "b"]]], .paragraph [.text "c"]]) := by
    have hblocks : blocks (linesOf "\t\n!!! *a/b*\r\n \nc".toList) =
        [.paragraph (Rule.leaves ['\t']),
          .header .h2 [.bold (Rule.leaves ['a'] ++ [.italics (Rule.leaves ['b'])])],
          .paragraph (Rule.leaves ['c'])] := rfl
    have htab : Rule.leaves ['\t'] = [.text "\t"] := by with_unfolding_all rfl
    rw [parse_eq_ok_iff, hblocks, htab, Rule.leaves_lowercase (by decide) rfl,
      Rule.leaves_lowercase (by decide) rfl, Rule.leaves_lowercase (by decide) rfl]
    exact ⟨by decide, rfl⟩
  have htext : joinedText (lines "\t\n!!! *a/b*\r\n \nc") = "\tabc" := by decide
  exact ⟨hparse, (plainText_parse hparse).trans htext⟩

end Page

end WikiMarkup
