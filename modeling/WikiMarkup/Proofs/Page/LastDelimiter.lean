import WikiMarkup.Proofs.Page.Parse

/-!
# A delimiter at the end of a page

Spans end with their line, so a delimiter at the very end closes nothing that the end of the line
would not close. It cannot open a span either, for want of anything to start it with: a page with a
delimiter at its end that can be read has the tree of the page without it.
-/

namespace WikiMarkup

namespace Piece

theorem push_concat_delim (c : Char) (ps : List Piece) (d : Delimiter) :
    push c (ps ++ [.delim d]) = push c ps ++ [.delim d] := by
  rcases ps with _ | ⟨_ | _, ps⟩ <;> rfl

theorem cut_concat_delim (line : List Char) (d : Delimiter) :
    cut (line ++ [d.char]) = cut line ++ [.delim d] := by
  induction line with
  | nil => cases d <;> rfl
  | cons c line ih =>
    rw [List.cons_append, cut, cut, ih]
    cases Delimiter.ofChar? c with
    | some e => rfl
    | none => exact push_concat_delim c (cut line) d

end Piece

namespace Spans

variable {s : Spans} {ps : List Piece} {d e : Delimiter}

/-- A delimiter that can do what it does before more pieces and a last delimiter can do it without
the last one, provided that this one closes a span. -/
theorem opens_of_concat (h : s.Opens e (ps ++ [.delim d]))
    (hlast : ((s.toggle e).run ps).Opens d []) : s.Opens e ps := by
  cases ps with
  | cons p ps =>
    cases s with
    | top done => exact ⟨List.cons_ne_nil p ps, h.2⟩
    | outer done f inner => cases p <;> exact h
    | nested done f inner innermost => trivial
  | nil =>
    -- If `e` opened a span, `d` would open one inside it, at the end of the line.
    cases s with
    | top done =>
      obtain ⟨-, hne⟩ := h
      rcases hlast with heq | hrun
      · exact absurd (congrArg (fun d => some (Piece.delim d)) heq) hne
      · cases hrun
    | outer done f inner =>
      rcases h with heq | hrun
      · exact .inl heq
      · cases hrun
    | nested done f inner innermost => trivial

/-- A delimiter at the end closes a span, and without it all others can still do what they do. -/
theorem openable_of_concat (h : s.Openable (ps ++ [.delim d])) :
    s.Openable ps ∧ (s.run ps).Opens d [] := by
  induction ps generalizing s with
  | nil => exact ⟨trivial, h.1⟩
  | cons p ps ih =>
    cases p with
    | run cs => exact ih h
    | delim e =>
      obtain ⟨hopens, hrest⟩ := h
      obtain ⟨hopenable, hlast⟩ := ih hrest
      exact ⟨⟨opens_of_concat hopens hlast, hopenable⟩, hlast⟩

/-- Closing what is left open does the same as a delimiter that closes one span or both. -/
theorem close_toggle_of_opens (h : s.Opens d []) : (s.toggle d).close = s.close := by
  cases s with
  | top done => exact absurd rfl h.1
  | outer done e inner =>
    rcases h with rfl | hrun
    · simp [toggle, close]
    · cases hrun
  | nested done e inner innermost => by_cases hd : d = e <;> simp [toggle, close, hd]

end Spans

section Line

variable {line : List Char} {d : Delimiter}

/-- A line with a delimiter at its end has the nodes of the line without it, which is not blocked
either. -/
theorem scan_concat_delim (h : ¬Blocked (line ++ [d.char])) :
    ¬Blocked line ∧ scan (line ++ [d.char]) = scan line := by
  rw [blocked_iff, Classical.not_not, Piece.cut_concat_delim] at h
  obtain ⟨hopenable, hlast⟩ := Spans.openable_of_concat h
  refine ⟨by rwa [blocked_iff, Classical.not_not], ?_⟩
  calc scan (line ++ [d.char])
    _ = (((Spans.top []).run (Piece.cut line)).toggle d).close := by
      rw [scan, Piece.cut_concat_delim, Spans.run, List.foldl_append]
      rfl
    _ = scan line := Spans.close_toggle_of_opens hlast

/-- There is something before a delimiter at the end of a line. -/
theorem blocked_delim (d : Delimiter) : Blocked [d.char] := by cases d <;> decide

theorem content_concat_delim (line : List Char) (d : Delimiter) :
    content (line ++ [d.char]) = line ++ [d.char] := by
  apply if_neg
  rw [List.getLast?_concat]
  cases d <;> decide

/-- A line with a delimiter at its end is the same block without it. -/
theorem lineBlock?_of_concat_delim (hcr : line.getLast? ≠ some '\r') {n : Node}
    (h : lineBlock? (line ++ [d.char]) = some n) : lineBlock? line = some n := by
  have hcontent : content line = line := if_neg hcr
  obtain ⟨hopen, hblock⟩ := of_lineBlock?_eq_some h
  rw [content_concat_delim] at hopen hblock
  obtain ⟨hline, hscan⟩ := scan_concat_delim hopen
  rw [lineBlock?, hcontent, if_neg hline]
  rcases hblock with ⟨level, title, htitle, rfl⟩ | ⟨htitle, rfl⟩
  · have hopenTitle : ¬Blocked title := mt (blocked_title_iff htitle).mp hopen
    rw [title?_append_delim] at htitle
    obtain ⟨found, hmarker, hfound⟩ := Option.map_eq_some_iff.mp htitle
    cases hfound
    -- The delimiter alone would be a title that is blocked.
    have hne : found.2.dropWhile isSpacing ≠ [] := by
      intro hnil
      rw [hnil] at hopenTitle
      exact hopenTitle (blocked_delim d)
    have hshort : title? line = some (found.1, found.2.dropWhile isSpacing) := by
      rw [title?, hmarker, Option.bind_some, if_neg hne]
    rw [hshort, (scan_concat_delim hopenTitle).2]
  · rw [title?_append_delim, Option.map_eq_none_iff] at htitle
    have hshort : title? line = none := by rw [title?, htitle, Option.bind_none]
    rw [hshort, hscan]

theorem isBlankLine_concat_delim (line : List Char) (d : Delimiter) :
    isBlankLine (line ++ [d.char]) = false := by
  rw [isBlankLine, content_concat_delim]
  simp [isSpacing_char]

/-- Blanks and a delimiter behind them cannot be read. -/
theorem isBlankLine_of_not_blocked (hcr : line.getLast? ≠ some '\r')
    (hopen : ¬Blocked (line ++ [d.char])) : isBlankLine line = false := by
  rw [← Bool.not_eq_true]
  intro hblank
  rw [isBlankLine, content, if_neg hcr] at hblank
  apply hopen
  rw [blocked_append]
  · exact blocked_delim d
  · intro e he
    have hspacing := List.all_eq_true.mp hblank e.char he
    rw [isSpacing_char] at hspacing
    cases hspacing

end Line

namespace Page

/-- A last line that is not blank is a block of its own. -/
theorem blocks_concat {line : List Char} (before : List (List Char))
    (h : isBlankLine line = false) :
    blocks (before ++ [line]) = blocks before ++ (lineBlock? line).toList := by
  cases before with
  | nil => simp [blocks, laterBlocks]
  | cons first before =>
    rw [blocks_append (List.cons_ne_nil first before), laterBlocks_cons h]
    simp [laterBlocks]

/-- A character at the end of a page is one at the end of its last line. -/
theorem exists_linesOf_concat {c : Char} (hc : c ≠ '\n') (cs : List Char) :
    ∃ before last, linesOf cs = before ++ [last] ∧
      linesOf (cs ++ [c]) = before ++ [last ++ [c]] ∧ last <:+ cs := by
  obtain ⟨before, last, hlines⟩ :=
    (List.eq_nil_or_concat (linesOf cs)).resolve_left (linesOf_ne_nil cs)
  rw [List.concat_eq_append] at hlines
  have hlf : ∀ l ∈ before ++ [last], '\n' ∉ l := fun l hl => not_mem_of_mem_linesOf (hlines ▸ hl)
  have htext : cs = unlines before ++ last := by
    have hunlines := unlines_linesOf cs
    rw [hlines, unlines_append, unlines_cons, unlines_nil, ← List.append_assoc] at hunlines
    exact (List.append_cancel_right hunlines).symm
  have hlast : '\n' ∉ last ++ [c] := by
    have hnot := hlf last (by simp)
    simp [hnot, hc.symm]
  refine ⟨before, last, hlines, ?_, htext ▸ List.suffix_append _ last⟩
  rw [htext, List.append_assoc,
    linesOf_unlines_append (fun l hl => hlf l (List.mem_append_left _ hl)) hlast]

/-- A page that can be read with a delimiter added at its end has the same tree without it. After a
carriage return at the end this need not be so, since it becomes a part of the line end. -/
theorem parse_of_parse_push {markup : String} (hcr : markup.toList.getLast? ≠ some '\r')
    (d : Delimiter) {t : Node} (h : parse (markup.push d.char) = .ok t) : parse markup = .ok t := by
  have hc : d.char ≠ '\n' := by cases d <;> decide
  obtain ⟨before, last, hlines, hpushed, hsuffix⟩ := exists_linesOf_concat hc markup.toList
  have hlast : last.getLast? ≠ some '\r' := by
    intro hreturn
    obtain ⟨front, hfront⟩ := hsuffix
    rw [← hfront, List.getLast?_append, hreturn] at hcr
    exact hcr rfl
  obtain ⟨hread, rfl⟩ := parse_eq_ok_iff.mp h
  rw [String.toList_push, hpushed] at hread ⊢
  obtain ⟨hbefore, hpushedLast⟩ := List.forall_mem_append.mp hread
  obtain ⟨n, hn⟩ := Option.isSome_iff_exists.mp (hpushedLast _ (List.mem_singleton_self _))
  have hshort := lineBlock?_of_concat_delim hlast hn
  have hopen := (of_lineBlock?_eq_some hn).1
  rw [content_concat_delim] at hopen
  rw [parse_eq_ok_iff, hlines, blocks_concat before (isBlankLine_of_not_blocked hlast hopen),
    blocks_concat before (isBlankLine_concat_delim last d), hshort, hn]
  refine ⟨List.forall_mem_append.mpr ⟨hbefore, ?_⟩, rfl⟩
  rw [List.forall_mem_singleton, isReadable, hshort]
  rfl

/-- One delimiter closes both spans in the last line, and the end of the line does too. -/
theorem parse_of_parse_push_both : "a\n*b/c".toList.getLast? ≠ some '\r' ∧
    parse "a\n*b/c*" = .ok (.document [.paragraph [.text "a"],
      .paragraph [.bold [.text "b", .italics [.text "c"]]]]) ∧
    parse "a\n*b/c" = .ok (.document [.paragraph [.text "a"],
      .paragraph [.bold [.text "b", .italics [.text "c"]]]]) := by
  have hcr : "a\n*b/c".toList.getLast? ≠ some '\r' := by decide
  have hpushed : parse ("a\n*b/c".push Delimiter.star.char) =
      .ok (.document [.paragraph [.text "a"],
        .paragraph [.bold [.text "b", .italics [.text "c"]]]]) := by
    have hblocks : blocks (linesOf ("a\n*b/c".push Delimiter.star.char).toList) =
        [.paragraph (Rule.leaves ['a']),
          .paragraph [.bold (Rule.leaves ['b'] ++ [.italics (Rule.leaves ['c'])])]] := rfl
    rw [parse_eq_ok_iff, hblocks, Rule.leaves_lowercase (by decide) rfl,
      Rule.leaves_lowercase (by decide) rfl, Rule.leaves_lowercase (by decide) rfl]
    exact ⟨by decide, rfl⟩
  exact ⟨hcr, hpushed, parse_of_parse_push hcr .star hpushed⟩

end Page

end WikiMarkup
