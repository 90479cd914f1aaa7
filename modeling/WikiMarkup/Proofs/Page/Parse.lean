import WikiMarkup.Proofs.Page.Lines

/-!
# What becomes of a page

The tree of a page that can be read has the blocks of its lines, and the failure of any other page
names the start of the first line that cannot be read.
-/

namespace WikiMarkup

open Peg

namespace Rule

open Page (IsText)

variable {lines : List (List Char)} {cs : List Char}

theorem read_document_eq : document.read = (Expr.onMatch
    (.sequence [.zeroOrMore (.rule .block), .endOfText]) (gather 0 .document)).read read :=
  read_eq document

/-- A text of lines that are all readable is read to its end. -/
theorem read_document (h : IsText lines cs) (hne : cs ≠ [])
    (hread : ∀ l ∈ lines, Page.isReadable l) :
    ∃ r, document.read cs = some r ∧ r.rest = [] ∧
      r.found.node = some (.document (Page.blocks lines)) := by
  obtain ⟨htext, hnodes⟩ := readRounds_block lines h fun hnil => absurd hnil hne
  have hdrop : lines.dropWhile Page.isReadable = [] := List.dropWhile_eq_nil_iff.mpr hread
  have htake : lines.takeWhile Page.isReadable = lines := List.takeWhile_eq_self_iff.mpr hread
  rw [hdrop] at htext
  rw [htake] at hnodes
  have hrest : (readRounds block.read cs).rest = [] := htext.text
  have heach : Expr.readEach read ([.zeroOrMore (.rule .block), .endOfText] : List MarkupExpr) cs =
      some (.cons (.spanning (readRounds block.read cs)) (.cons ⟨.empty, [], []⟩ (.empty []))) := by
    simp [Expr.readEach, Expr.read, Reading.spanning, hrest]
  rw [read_document_eq, Expr.read, Expr.read, heach]
  exact ⟨_, rfl, rfl, congrArg (fun ns => some (Node.document ns)) hnodes⟩

theorem read_document_eq_none (h : IsText lines cs) (hne : cs ≠ [])
    (hread : ¬∀ l ∈ lines, Page.isReadable l) : document.read cs = none := by
  obtain ⟨htext, -⟩ := readRounds_block lines h fun hnil => absurd hnil hne
  have hleft : (readRounds block.read cs).rest ≠ [] := by
    intro hnil
    apply hread
    rw [← List.dropWhile_eq_nil_iff]
    cases hdrop : lines.dropWhile Page.isReadable with
    | nil => rfl
    | cons line after =>
      have hhead := List.head?_dropWhile_not Page.isReadable lines
      rw [hdrop, hnil] at htext
      rw [hdrop] at hhead
      have hline := Page.isReadable_of_isBlankLine htext.isBlankLine_of_nil
      exact absurd hline (ne_true_of_eq_false hhead)
  rw [read_document_eq]
  simp [Expr.readEach, Expr.read, Reading.spanning, hleft]

end Rule

namespace Page

variable {markup : String}

/-- The line feed that is added ends the last line of the page, so the text that is read has one
more line, without characters. -/
theorem isText_start (markup : String) :
    IsText (linesOf markup.toList ++ [[]]) (start markup).rest := by
  have hlast : (markup.toList ++ ['\n']).getLast? ≠ some '\r' := by
    rw [List.getLast?_concat]
    decide
  have htext := isText_linesOf hlast
  rwa [linesOf_append] at htext

theorem start_rest_ne_nil (markup : String) : (start markup).rest ≠ [] :=
  List.append_ne_nil_of_right_ne_nil _ (List.cons_ne_nil '\n' [])

/-- A page whose lines are all readable becomes the document of their blocks. -/
theorem parse_of_readable (h : ∀ l ∈ linesOf markup.toList, isReadable l) :
    parse markup = .ok (.document (blocks (linesOf markup.toList))) := by
  have hall : ∀ l ∈ linesOf markup.toList ++ [[]], isReadable l :=
    List.forall_mem_append.mpr ⟨h, by decide⟩
  obtain ⟨r, hr, -, hnode⟩ :=
    Rule.read_document (isText_start markup) (start_rest_ne_nil markup) hall
  have hblocks : blocks (linesOf markup.toList ++ [[]]) = blocks (linesOf markup.toList) := by
    rw [blocks_append (linesOf_ne_nil _)]
    exact List.append_nil _
  have hmatch : (Rule.match? (.rule .document) (start markup)).bind (·.node) =
      some (.document (blocks (linesOf markup.toList))) := by
    rw [Rule.match?_eq, Expr.read, hr, ← hblocks]
    exact hnode
  rw [parse, hmatch]

theorem count_unlines {lines : List (List Char)} (h : ∀ l ∈ lines, '\n' ∉ l) :
    (unlines lines).count '\n' = lines.length := by
  induction lines with
  | nil => rfl
  | cons line lines ih =>
    have hline := List.count_eq_zero.mpr (h line (List.mem_cons_self ..))
    have hlines := ih fun l hl => h l (List.mem_cons_of_mem line hl)
    rw [unlines_cons, List.count_append, List.count_cons_self, hline, hlines, List.length_cons,
      Nat.zero_add]

/-- Behind lines with their line feeds there is a line feed, unless there are no lines. -/
theorem unlines_eq_nil_or_concat (lines : List (List Char)) :
    unlines lines = [] ∨ ∃ front, unlines lines = front ++ ['\n'] := by
  rcases List.eq_nil_or_concat lines with rfl | ⟨lines, line, rfl⟩
  · exact .inl rfl
  · exact .inr ⟨unlines lines ++ line, by simp⟩

/-- The place behind lines is at the start of the next line. -/
theorem failureAt_unlines {before : List (List Char)} {rest : List Char}
    (h : ∀ l ∈ before, '\n' ∉ l) {c : Cursor} (hstart : c.behind = [])
    (hc : c.rest = unlines before ++ rest) :
    failureAt c (Text.byteSize (unlines before)) =
      .noMatch (Text.byteSize (unlines before)) (before.length + 1) 1 := by
  have hline : ((unlines before).reverse ++ c.behind).count '\n' = before.length := by
    rw [hstart, List.append_nil, List.count_reverse, count_unlines h]
  have hcolumn : ((unlines before).reverse ++ c.behind).takeWhile (· != '\n') = [] := by
    rw [hstart, List.append_nil]
    rcases unlines_eq_nil_or_concat before with hnil | ⟨front, hfront⟩
    · rw [hnil]
      rfl
    · rw [hfront, List.reverse_concat]
      rfl
  rw [failureAt, Cursor.advance_of_rest_eq hc]
  simp only [Cursor.line, Cursor.column, hline, hcolumn, List.length_nil, Nat.zero_add]

/-- Any other page fails at its first line that is not readable. -/
theorem parse_of_not_readable {before after : List (List Char)} {line : List Char}
    (hlines : linesOf markup.toList = before ++ line :: after)
    (hbefore : ∀ l ∈ before, isReadable l) (hline : ¬isReadable line) :
    parse markup =
      .error (.noMatch (Text.byteSize (unlines before)) (before.length + 1) 1) := by
  have htext := isText_start markup
  rw [hlines, List.append_assoc, List.cons_append] at htext
  have hne := start_rest_ne_nil markup
  have hsplit : (start markup).rest =
      unlines before ++ ['\n'].intercalate (line :: (after ++ [[]])) := by
    rw [htext.text, intercalate_append before (List.cons_ne_nil _ _)]
  have hdocument : (Rule.match? (.rule .document) (start markup)).bind (·.node) = none := by
    rw [Rule.match?_eq, Expr.read, Rule.read_document_eq_none htext hne]
    · rfl
    · intro hall
      exact hline (hall line (by simp))
  obtain ⟨hblocks, -⟩ := Rule.readRounds_block _ htext fun hnil => absurd hnil hne
  rw [List.dropWhile_append_of_pos hbefore, List.dropWhile_cons_of_neg hline] at hblocks
  have hfront : (readRounds Rule.block.read (start markup).rest).front = unlines before := by
    have hcut := readRounds_isCut (Rule.exact_read .block) (start markup).rest
    apply Stretch.IsCut.front_eq
    rwa [hblocks.text, ← hsplit]
  have hstuck : stuckAt (start markup) = Text.byteSize (unlines before) := by
    rw [stuckAt, Rule.match?_eq, ← hfront]
    rfl
  have hfailure := failureAt_unlines (c := start markup)
    (fun l hl => htext.noFeed l (List.mem_append_left _ hl)) rfl hsplit
  rw [parse, hdocument, hstuck, hfailure]

/-- A page has a tree exactly if all its lines are readable. -/
theorem parse_eq_ok_iff {t : Node} : parse markup = .ok t ↔
    (∀ l ∈ linesOf markup.toList, isReadable l) ∧
      t = .document (blocks (linesOf markup.toList)) := by
  rcases readable_or_split (linesOf markup.toList) with
    hall | ⟨before, line, after, h, hbefore, hline⟩
  · rw [parse_of_readable hall]
    constructor
    · rintro h
      cases h
      exact ⟨hall, rfl⟩
    · rintro ⟨-, rfl⟩
      rfl
  · rw [parse_of_not_readable h hbefore hline]
    simp only [reduceCtorEq, false_iff, not_and]
    intro hall
    exact absurd (hall line (by simp [h])) hline

/-- The tree of a page has the block of the first line, and the blocks of later lines that are not
blank. -/
theorem of_parse_eq_ok {t : Node} (h : parse markup = .ok t) : ∃ first later n,
    linesOf markup.toList = first :: later ∧ (∀ l ∈ first :: later, '\n' ∉ l) ∧
      (∀ l ∈ first :: later, isReadable l) ∧ lineBlock? first = some n ∧
      t = .document (n :: laterBlocks later) := by
  obtain ⟨hall, rfl⟩ := parse_eq_ok_iff.mp h
  have hlf : ∀ l ∈ linesOf markup.toList, '\n' ∉ l := fun l hl => not_mem_of_mem_linesOf hl
  obtain ⟨first, later, hlines⟩ := List.exists_cons_of_ne_nil (linesOf_ne_nil markup.toList)
  rw [hlines] at hall hlf ⊢
  obtain ⟨n, hn⟩ := Option.isSome_iff_exists.mp (hall first (List.mem_cons_self ..))
  refine ⟨first, later, n, rfl, hlf, hall, hn, ?_⟩
  rw [blocks, hn, Option.toList_some, List.singleton_append]

/-- Every block of a page stands for a line. -/
theorem exists_line_of_parse_eq_ok {t : Node} (h : parse markup = .ok t) :
    ∃ ns, t = .document ns ∧
      ∀ n ∈ ns, ∃ line ∈ linesOf markup.toList, lineBlock? line = some n := by
  obtain ⟨first, later, block, hlines, -, -, hblock, rfl⟩ := of_parse_eq_ok h
  refine ⟨_, rfl, fun n hn => ?_⟩
  rw [hlines]
  obtain rfl | hn := List.mem_cons.mp hn
  · exact ⟨first, List.mem_cons_self .., hblock⟩
  · obtain ⟨line, hline, -, hlater⟩ := exists_line_of_mem_laterBlocks hn
    exact ⟨line, List.mem_cons_of_mem first hline, hlater⟩

end Page

end WikiMarkup
