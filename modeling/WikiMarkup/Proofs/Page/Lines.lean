import WikiMarkup.Page.Parse
import WikiMarkup.Proofs.Block.Line

/-!
# Pages are read line by line

A page is a list of lines. The first line and all later lines that are not blank are its blocks, one
each, and the page can be read exactly if every line can. Otherwise reading stops at the start of
the first line that cannot. `IsText` says that a text has these lines; a round of reading takes the
text of some lines to the text of those behind them.
-/

namespace WikiMarkup

open Peg

namespace Page

/-- The pieces of the characters between line feeds. -/
def linesOf (cs : List Char) : List (List Char) := cs.splitOn '\n'

/-- Lines with a line feed behind each. -/
def unlines (lines : List (List Char)) : List Char := lines.flatMap (· ++ ['\n'])

@[simp] theorem unlines_nil : unlines [] = [] := rfl

@[simp] theorem unlines_cons (line : List Char) (lines : List (List Char)) :
    unlines (line :: lines) = line ++ '\n' :: unlines lines := by
  simp [unlines]

@[simp] theorem unlines_append (xs ys : List (List Char)) :
    unlines (xs ++ ys) = unlines xs ++ unlines ys := List.flatMap_append

theorem linesOf_ne_nil (cs : List Char) : linesOf cs ≠ [] := List.splitOn_ne_nil '\n' cs

/-- No line holds a line feed. -/
theorem not_mem_of_mem_linesOf {line cs : List Char} (h : line ∈ linesOf cs) : '\n' ∉ line := by
  induction cs generalizing line with
  | nil =>
    obtain rfl : line = [] := by simpa [linesOf] using h
    exact List.not_mem_nil
  | cons c cs ih =>
    rw [linesOf, List.splitOn_cons_eq_if_modifyHead, ← linesOf] at h
    split at h
    · rcases List.mem_cons.mp h with rfl | h
      · exact List.not_mem_nil
      · exact ih h
    · next hc =>
      obtain ⟨first, lines, hlines⟩ := List.exists_cons_of_ne_nil (linesOf_ne_nil cs)
      rw [hlines, List.modifyHead_cons] at h
      rcases List.mem_cons.mp h with rfl | h
      · have hfirst : '\n' ∉ first := ih (by simp [hlines])
        have hne : '\n' ≠ c := fun heq => hc (beq_iff_eq.mpr heq.symm)
        simp [hne, hfirst]
      · exact ih (by simp [hlines, h])

theorem linesOf_append (xs ys : List Char) :
    linesOf (xs ++ '\n' :: ys) = linesOf xs ++ linesOf ys := List.splitOn_append_cons_self xs ys

/-- The lines behind some have a text by themselves, if there are any. -/
theorem intercalate_append (before : List (List Char)) {more : List (List Char)} (h : more ≠ []) :
    ['\n'].intercalate (before ++ more) = unlines before ++ ['\n'].intercalate more := by
  induction before with
  | nil => rfl
  | cons line before ih =>
    have hne : before ++ more ≠ [] := List.append_ne_nil_of_right_ne_nil before h
    rw [List.cons_append, List.intercalate_cons_of_ne_nil hne, ih, unlines_cons]
    simp

/-- With a line feed behind the last line too, one line without characters is added. -/
theorem unlines_linesOf (cs : List Char) : unlines (linesOf cs) = cs ++ ['\n'] := by
  have htext : ['\n'].intercalate (linesOf (cs ++ ['\n'])) = cs ++ ['\n'] :=
    List.intercalate_splitOn '\n'
  have hlines : linesOf (cs ++ ['\n']) = linesOf cs ++ [[]] := linesOf_append cs []
  rw [hlines, intercalate_append _ (List.cons_ne_nil _ _)] at htext
  simpa using htext

theorem mem_of_mem_linesOf {c : Char} {line cs : List Char} (h : line ∈ linesOf cs)
    (hc : c ∈ line) : c ∈ cs := by
  have hne : c ≠ '\n' := by
    rintro rfl
    exact not_mem_of_mem_linesOf h hc
  have hmem : c ∈ unlines (linesOf cs) :=
    List.mem_flatMap.mpr ⟨line, h, List.mem_append_left _ hc⟩
  rw [unlines_linesOf, List.mem_append, List.mem_singleton] at hmem
  exact hmem.resolve_right hne

theorem linesOf_of_not_mem {line : List Char} (h : '\n' ∉ line) : linesOf line = [line] :=
  List.splitOn_eq_singleton h

/-- The lines of a text are those that it was put together from. -/
theorem linesOf_unlines_append {before : List (List Char)} {line : List Char}
    (h : ∀ l ∈ before, '\n' ∉ l) (hline : '\n' ∉ line) :
    linesOf (unlines before ++ line) = before ++ [line] := by
  induction before with
  | nil => exact linesOf_of_not_mem hline
  | cons first before ih =>
    rw [unlines_cons, List.append_assoc, List.cons_append, linesOf_append,
      linesOf_of_not_mem (h first (List.mem_cons_self ..)),
      ih fun l hl => h l (List.mem_cons_of_mem first hl)]
    rfl

/-- The lines of a page. -/
def lines (markup : String) : List String := (linesOf markup.toList).map String.ofList

/-! ## What the blocks of lines are -/

/-- A line that is a block. -/
def isReadable (line : List Char) : Bool := (lineBlock? line).isSome

/-- Later lines count unless they are blank. -/
def laterBlocks (lines : List (List Char)) : List Node :=
  (lines.filter (fun line => !isBlankLine line)).filterMap lineBlock?

/-- The blocks of lines; the first line counts even if it is blank. -/
def blocks : List (List Char) → List Node
  | [] => []
  | line :: lines => (lineBlock? line).toList ++ laterBlocks lines

theorem isReadable_iff {line : List Char} : isReadable line ↔ ¬Blocked (content line) := by
  unfold isReadable lineBlock?
  split
  · simp_all
  · split <;> simp_all

/-- Blank lines are readable, since they hold no delimiters. -/
theorem isReadable_of_isBlankLine {line : List Char} (h : isBlankLine line) : isReadable line := by
  have hplain : ∀ d : Delimiter, d.char ∉ content line := by
    intro d hd
    have hspacing := List.all_eq_true.mp h _ hd
    cases d <;> exact absurd hspacing (by decide)
  have hblocked : Blocked (content line ++ []) ↔ Blocked [] := blocked_append hplain
  rw [List.append_nil] at hblocked
  rw [isReadable_iff, hblocked, blocked_iff]
  exact not_not_intro trivial

theorem laterBlocks_cons_of_isBlankLine {line : List Char} {lines : List (List Char)}
    (h : isBlankLine line) : laterBlocks (line :: lines) = laterBlocks lines := by
  simp [laterBlocks, h]

theorem laterBlocks_cons {line : List Char} {lines : List (List Char)}
    (h : isBlankLine line = false) :
    laterBlocks (line :: lines) = (lineBlock? line).toList ++ laterBlocks lines := by
  cases hblock : lineBlock? line <;> simp [laterBlocks, h, hblock]

/-- Later blocks come from lines that are not blank. -/
theorem exists_line_of_mem_laterBlocks {lines : List (List Char)} {n : Node}
    (h : n ∈ laterBlocks lines) :
    ∃ line ∈ lines, isBlankLine line = false ∧ lineBlock? line = some n := by
  obtain ⟨line, hline, hblock⟩ := List.mem_filterMap.mp h
  obtain ⟨hmem, hblank⟩ := List.mem_filter.mp hline
  exact ⟨line, hmem, by simpa using hblank, hblock⟩

theorem blocks_append {lines more : List (List Char)} (h : lines ≠ []) :
    blocks (lines ++ more) = blocks lines ++ laterBlocks more := by
  obtain ⟨line, lines, rfl⟩ := List.exists_cons_of_ne_nil h
  simp [blocks, laterBlocks]

theorem laterBlocks_eq_blocks_dropWhile (lines : List (List Char)) :
    laterBlocks lines = blocks (lines.dropWhile isBlankLine) := by
  induction lines with
  | nil => rfl
  | cons line lines ih =>
    cases hblank : isBlankLine line with
    | true =>
      rw [List.dropWhile_cons_of_pos hblank, ← ih, laterBlocks_cons_of_isBlankLine hblank]
    | false =>
      rw [List.dropWhile_cons_of_neg (ne_true_of_eq_false hblank), blocks, laterBlocks_cons hblank]

/-- There is a first line that is not readable, or none. -/
theorem readable_or_split (lines : List (List Char)) : (∀ l ∈ lines, isReadable l) ∨
    ∃ before line after, lines = before ++ line :: after ∧ (∀ l ∈ before, isReadable l) ∧
      ¬isReadable line := by
  cases hdrop : lines.dropWhile isReadable with
  | nil => exact .inl (List.dropWhile_eq_nil_iff.mp hdrop)
  | cons line after =>
    refine .inr ⟨lines.takeWhile isReadable, line, after, ?_, ?_, ?_⟩
    · rw [← hdrop, List.takeWhile_append_dropWhile]
    · intro l hl
      exact List.all_eq_true.mp List.all_takeWhile l hl
    · have hhead := List.head?_dropWhile_not isReadable lines
      rw [hdrop] at hhead
      exact ne_true_of_eq_false hhead

/-- Skipping blank lines does not pass a line that is not readable. -/
theorem dropWhile_isReadable (lines : List (List Char)) :
    (lines.dropWhile isBlankLine).dropWhile isReadable = lines.dropWhile isReadable := by
  induction lines with
  | nil => rfl
  | cons line lines ih =>
    cases hblank : isBlankLine line with
    | true =>
      rw [List.dropWhile_cons_of_pos hblank, ih,
        List.dropWhile_cons_of_pos (isReadable_of_isBlankLine hblank)]
    | false => rw [List.dropWhile_cons_of_neg (ne_true_of_eq_false hblank)]

theorem takeWhile_isReadable (lines : List (List Char)) :
    (lines.dropWhile isBlankLine).takeWhile isReadable =
      (lines.takeWhile isReadable).dropWhile isBlankLine := by
  induction lines with
  | nil => rfl
  | cons line lines ih =>
    cases hblank : isBlankLine line with
    | true =>
      rw [List.dropWhile_cons_of_pos hblank, ih,
        List.takeWhile_cons_of_pos (isReadable_of_isBlankLine hblank),
        List.dropWhile_cons_of_pos hblank]
    | false =>
      rw [List.dropWhile_cons_of_neg (ne_true_of_eq_false hblank)]
      cases hread : isReadable line with
      | true =>
        rw [List.takeWhile_cons_of_pos hread,
          List.dropWhile_cons_of_neg (ne_true_of_eq_false hblank)]
      | false =>
        rw [List.takeWhile_cons_of_neg (ne_true_of_eq_false hread)]
        rfl

end Page

namespace Page

/-! ## Texts of lines -/

/-- The text is the lines with a line feed between each two. No line feed ends the last line, so it
has no carriage return at its end. -/
structure IsText (lines : List (List Char)) (cs : List Char) : Prop where
  text : cs = ['\n'].intercalate lines
  noFeed : ∀ l ∈ lines, '\n' ∉ l
  noReturn : cs.getLast? ≠ some '\r'

theorem isText_linesOf {cs : List Char} (h : cs.getLast? ≠ some '\r') :
    IsText (linesOf cs) cs where
  text := (List.intercalate_splitOn '\n').symm
  noFeed _ := not_mem_of_mem_linesOf
  noReturn := h

namespace IsText

variable {line cs : List Char} {lines : List (List Char)}

/-- Behind the line end of the first line there is the text of the others. -/
theorem exists_firstLine (h : IsText (line :: lines) cs) :
    ∃ e rest, FirstLine line e rest cs ∧ IsText lines rest := by
  have hline : '\n' ∉ line := h.noFeed line (List.mem_cons_self ..)
  have hlines : ∀ l ∈ lines, '\n' ∉ l := fun l hl => h.noFeed l (List.mem_cons_of_mem line hl)
  have hreturn := h.noReturn
  by_cases hnil : lines = []
  · subst hnil
    obtain rfl : cs = line := h.text.trans List.intercalate_singleton
    exact ⟨[], [], firstLine_end hline hreturn, rfl, hlines, nofun⟩
  · obtain rfl : cs = line ++ '\n' :: ['\n'].intercalate lines := by
      rw [h.text, List.intercalate_cons_of_ne_nil hnil, List.append_assoc]
      rfl
    obtain ⟨e, hfirst⟩ := exists_firstLine_lf hline (['\n'].intercalate lines)
    refine ⟨e, _, hfirst, rfl, hlines, ?_⟩
    intro hlast
    apply hreturn
    rw [List.getLast?_append, List.getLast?_cons, hlast]
    rfl

/-- In an empty text there is at most a blank line. -/
theorem isBlankLine_of_nil (h : IsText (line :: lines) []) : isBlankLine line := by
  obtain ⟨e, rest, hfirst, -⟩ := h.exists_firstLine
  obtain ⟨hcontent, -⟩ := List.append_eq_nil_iff.mp hfirst.text.symm
  rw [isBlankLine, hcontent]
  rfl

theorem dropWhile_eq_nil (h : IsText (lines.dropWhile isBlankLine) []) :
    lines.dropWhile isBlankLine = [] := by
  cases hdrop : lines.dropWhile isBlankLine with
  | nil => rfl
  | cons line after =>
    have hhead := List.head?_dropWhile_not isBlankLine lines
    rw [hdrop] at h hhead
    exact absurd h.isBlankLine_of_nil (ne_true_of_eq_false hhead)

end IsText

end Page

namespace Rule

open Page (IsText)

variable {line cs : List Char} {lines : List (List Char)}

/-- Skipping ends at the first line that is not blank. At the end of the text a line without
characters is not skipped, but nothing is left of it to read. -/
theorem readRounds_blankLine (h : IsText lines cs) :
    IsText (lines.dropWhile isBlankLine) (readRounds (blankLine.read read) cs).rest := by
  induction lines generalizing cs with
  | nil =>
    obtain rfl : cs = [] := h.text
    rw [readRounds_nil]
    exact h
  | cons line lines ih =>
    obtain ⟨e, rest, hfirst, htext⟩ := h.exists_firstLine
    obtain ⟨hnot, hyes⟩ := read_blankLine_line hfirst
    cases hblank : isBlankLine line with
    | true =>
      rw [List.dropWhile_cons_of_pos hblank]
      obtain ⟨m, hm⟩ := hyes hblank
      have hskipped := ih htext
      by_cases hnil : cs = []
      · have hrest : rest = [] := by
          have hparts := hfirst.text
          rw [hnil] at hparts
          exact (List.append_eq_nil_iff.mp (List.append_eq_nil_iff.mp hparts.symm).2).2
        rw [hnil]
        rwa [hrest] at hskipped
      · rw [readRounds_of_some (exact_expr blankLine) hm (hfirst.ne_nil hnil), Stretch.rest_cons]
        exact hskipped
    | false =>
      rw [readRounds_of_none (hnot hblank), List.dropWhile_cons_of_neg (ne_true_of_eq_false hblank)]
      exact h

theorem read_block_eq : block.read = (Expr.onMatch (.sequence [blockLine, .zeroOrMore blankLine])
    (lift 0)).read read := read_eq block

theorem read_block_of_not_isReadable (h : IsText (line :: lines) cs)
    (hline : Page.isReadable line = false) : block.read cs = none := by
  obtain ⟨e, rest, hfirst, -⟩ := h.exists_firstLine
  have hblock : lineBlock? line = none :=
    Option.not_isSome_iff_eq_none.mp (ne_true_of_eq_false hline)
  have hnone := read_blockLine_of_blocked hfirst hblock
  rw [read_block_eq]
  simp [Expr.read, Expr.readEach, hnone]

/-- A block is a line and the blank lines behind it. -/
theorem read_block (h : IsText (line :: lines) cs) (hne : cs ≠ []) {n : Node}
    (hline : lineBlock? line = some n) :
    ∃ r, block.read cs = some r ∧ r.front ≠ [] ∧ r.found.node = some n ∧
      IsText (lines.dropWhile isBlankLine) r.rest := by
  obtain ⟨e, rest, hfirst, htext⟩ := h.exists_firstLine
  obtain ⟨m, hm, hnode⟩ := exists_read_blockLine hfirst hline
  have heach : Expr.readEach read ([blockLine, .zeroOrMore blankLine] : List MarkupExpr) cs =
      some (.cons ⟨m, content line ++ e, rest⟩
        (.cons (.spanning (readRounds (blankLine.read read) rest))
          (.empty (readRounds (blankLine.read read) rest).rest))) := by
    simp [Expr.readEach, hm, Expr.read, Reading.spanning]
  rw [read_block_eq, Expr.read, Expr.read, heach]
  refine ⟨_, rfl, ?_, hnode, readRounds_blankLine htext⟩
  exact List.append_ne_nil_of_left_ne_nil (hfirst.ne_nil hne) _

/-- Blocks are read up to the first line that is not readable. A text of no characters has no block,
so a line without characters must have its line end. -/
theorem readRounds_block (lines : List (List Char)) {cs : List Char} (h : IsText lines cs)
    (hne : cs = [] → lines = []) :
    IsText (lines.dropWhile Page.isReadable) (readRounds block.read cs).rest ∧
      (readRounds block.read cs).nodes = Page.blocks (lines.takeWhile Page.isReadable) := by
  cases lines with
  | nil =>
    obtain rfl : cs = [] := h.text
    rw [readRounds_nil]
    exact ⟨h, rfl⟩
  | cons line lines =>
    cases hline : Page.isReadable line with
    | false =>
      have hneg := ne_true_of_eq_false hline
      rw [readRounds_of_none (read_block_of_not_isReadable h hline),
        List.dropWhile_cons_of_neg hneg, List.takeWhile_cons_of_neg hneg]
      exact ⟨h, rfl⟩
    | true =>
      obtain ⟨n, hn⟩ := Option.isSome_iff_exists.mp hline
      obtain ⟨r, hr, hfront, hnode, htext⟩ := read_block h (fun hnil => nomatch hne hnil) hn
      have hle : (lines.dropWhile isBlankLine).length ≤ lines.length :=
        (List.dropWhile_sublist isBlankLine).length_le
      obtain ⟨hrest, hnodes⟩ := readRounds_block (lines.dropWhile isBlankLine) htext fun hnil =>
        (hnil ▸ htext).dropWhile_eq_nil
      rw [readRounds_of_some (exact_read block) hr hfront, Stretch.rest_cons, Stretch.nodes_cons,
        hnodes, hnode, Page.takeWhile_isReadable, List.dropWhile_cons_of_pos hline,
        List.takeWhile_cons_of_pos hline, Page.blocks, hn, Page.laterBlocks_eq_blocks_dropWhile]
      rw [Page.dropWhile_isReadable] at hrest
      exact ⟨hrest, rfl⟩
termination_by lines.length
decreasing_by
  subst_vars
  exact Nat.lt_succ_of_le hle

end Rule

end WikiMarkup
