import WikiMarkup.Proofs.Block.WriteBack
import WikiMarkup.Proofs.Page.Parse

/-!
# Trees written and read again

The tree of a page, written as markup, is a page with the same tree. So the tree keeps everything
that the rules tell apart; what it loses is only how far spans were left open, the blank lines and
the blanks before titles.
-/

namespace WikiMarkup

open Node

namespace Page

theorem lineMarkups_eq_unlines (ns : List Node) :
    lineMarkups ns = unlines (ns.map fun n => n.markup ++ ['\r']) := by
  induction ns with
  | nil => rfl
  | cons n ns ih => simp [lineMarkups, ih]

/-- The lines of a tree: one for every block, and an empty one at the end. -/
theorem linesOf_lineMarkups {ns : List Node} (h : ∀ n ∈ ns, '\n' ∉ n.markup) :
    linesOf (lineMarkups ns) = ns.map (fun n => n.markup ++ ['\r']) ++ [[]] := by
  have hlf : ∀ l ∈ ns.map fun n => n.markup ++ ['\r'], '\n' ∉ l := by
    rw [List.forall_mem_map]
    intro n hn
    simp [h n hn]
  rw [lineMarkups_eq_unlines, ← linesOf_unlines_append hlf List.not_mem_nil, List.append_nil]

/-- The markup of later blocks has these blocks. -/
theorem laterBlocks_markup {ns : List Node}
    (h : ∀ n ∈ ns, lineBlock? (n.markup ++ ['\r']) = some n ∧
      isBlankLine (n.markup ++ ['\r']) = false) :
    laterBlocks (ns.map (fun n => n.markup ++ ['\r']) ++ [[]]) = ns := by
  induction ns with
  | nil => rfl
  | cons n ns ih =>
    obtain ⟨hblock, hblank⟩ := h n (List.mem_cons_self ..)
    have hrest := ih fun n hn => h n (List.mem_cons_of_mem _ hn)
    rw [List.map_cons, List.cons_append, laterBlocks_cons hblank, hblock, hrest]
    rfl

/-- Parsing the markup of a tree that comes from a page gives the tree again. -/
theorem parse_unparse {page : String} {t : Node} (h : parse page = .ok t) :
    parse t.unparse = .ok t := by
  obtain ⟨hall, rfl⟩ := parse_eq_ok_iff.mp h
  obtain ⟨first, rest, hlines⟩ := List.exists_cons_of_ne_nil (linesOf_ne_nil page.toList)
  have hlf : ∀ l ∈ first :: rest, '\n' ∉ l := fun l hl => not_mem_of_mem_linesOf (hlines ▸ hl)
  rw [hlines] at hall ⊢
  obtain ⟨n, hn⟩ := Option.isSome_iff_exists.mp (hall first (List.mem_cons_self ..))
  obtain ⟨hnlf, hnblock, -⟩ := lineBlock?_markup (hlf first (List.mem_cons_self ..)) hn
  have hlater : ∀ n ∈ laterBlocks rest, '\n' ∉ n.markup ∧
      lineBlock? (n.markup ++ ['\r']) = some n ∧ isBlankLine (n.markup ++ ['\r']) = false := by
    intro n hn
    obtain ⟨line, hline, hblank, hblock⟩ := exists_line_of_mem_laterBlocks hn
    obtain ⟨hnlf, hsame, hblank'⟩ :=
      lineBlock?_markup (hlf line (List.mem_cons_of_mem first hline)) hblock
    refine ⟨hnlf, hsame, ?_⟩
    rw [← Bool.not_eq_true]
    intro hyes
    exact Bool.false_ne_true (hblank.symm.trans (hblank' hyes))
  have hblocks : blocks (first :: rest) = n :: laterBlocks rest := by
    rw [blocks, hn]
    rfl
  have htext : linesOf (document (blocks (first :: rest))).unparse.toList =
      (n :: laterBlocks rest).map (fun n => n.markup ++ ['\r']) ++ [[]] := by
    rw [unparse, String.toList_ofList, markup, hblocks]
    apply linesOf_lineMarkups
    intro n' hn'
    rcases List.mem_cons.mp hn' with rfl | hn'
    · exact hnlf
    · exact (hlater n' hn').1
  rw [parse_eq_ok_iff, htext]
  constructor
  · intro l hl
    rw [List.mem_append, List.mem_map, List.mem_singleton] at hl
    rcases hl with ⟨n', hn', rfl⟩ | rfl
    · rcases List.mem_cons.mp hn' with rfl | hn'
      · exact Option.isSome_of_eq_some hnblock
      · exact Option.isSome_of_eq_some (hlater n' hn').2.1
    · exact isReadable_of_isBlankLine rfl
  · rw [hblocks, List.map_cons, List.cons_append, blocks, hnblock,
      laterBlocks_markup fun n' hn' => (hlater n' hn').2]
    rfl

/-- An open span, a blank line and blanks before a title are not kept. -/
theorem parse_unparse_open_span :
    parse "!!!  a\n\n*b" =
      .ok (.document [.header .h2 [.text "a"], .paragraph [.bold [.text "b"]]]) ∧
    parse "!!! a\r\n*b*\r\n" =
      .ok (.document [.header .h2 [.text "a"], .paragraph [.bold [.text "b"]]]) := by
  have hparse : parse "!!!  a\n\n*b" =
      .ok (.document [.header .h2 [.text "a"], .paragraph [.bold [.text "b"]]]) := by
    have hblocks : blocks (linesOf "!!!  a\n\n*b".toList) =
        [.header .h2 (Rule.leaves ['a']), .paragraph [.bold (Rule.leaves ['b'])]] := rfl
    rw [parse_eq_ok_iff, hblocks, Rule.leaves_lowercase (by decide) rfl,
      Rule.leaves_lowercase (by decide) rfl]
    exact ⟨by decide, rfl⟩
  have hunparse : (document [.header .h2 [.text "a"], .paragraph [.bold [.text "b"]]]).unparse =
      "!!! a\r\n*b*\r\n" := by decide
  refine ⟨hparse, ?_⟩
  rw [← hunparse]
  exact parse_unparse hparse

end Page

end WikiMarkup
