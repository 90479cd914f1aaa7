import WikiMarkup.Proofs.Inline.Paragraph
import WikiMarkup.Proofs.Rules.Marker

/-!
# Headers

A header is a line with a marker, blanks and a title, which is not empty and is scanned as the line
of a paragraph is. A line with a marker and no title is no header.
-/

namespace WikiMarkup

open Peg

/-- The level and the title of a header, if the line is one. -/
def title? (line : List Char) : Option (HeaderLevel × List Char) :=
  (marker? line).bind fun found =>
    let title := found.2.dropWhile isSpacing
    if title = [] then none else some (found.1, title)

/-- What stands behind the marks of a header, four at most, and the blanks after them. -/
def behindMarks (line : List Char) : List Char :=
  (line.drop (min (marks line) 4)).dropWhile isSpacing

/-- A line is a header if it starts with two marks and something stands behind them. -/
theorem title?_eq (line : List Char) : title? line =
    if behindMarks line = [] then none
    else (levelOfMarks? (marks line)).map fun level => (level, behindMarks line) := by
  rw [title?, marker?_eq]
  cases levelOfMarks? (marks line) with
  | none => rw [Option.map_none, Option.bind_none, Option.map_none, ite_self]
  | some level => rfl

/-- A line starts a header if it has two marks at its head and something behind them and the blanks
after them. Marks beyond the fourth belong to what is behind. -/
def StartsHeader (line : List Char) : Prop := 2 ≤ marks line ∧ behindMarks line ≠ []

/-- The title of a header is what stands behind its marks. -/
theorem title?_eq_some_iff {line title : List Char} {level : HeaderLevel} :
    title? line = some (level, title) ↔
      StartsHeader line ∧ levelOfMarks? (marks line) = some level ∧ behindMarks line = title := by
  rw [title?_eq, StartsHeader, Option.ite_none_left_eq_some, Option.map_eq_some_iff]
  constructor
  · rintro ⟨hne, found, hlevel, heq⟩
    cases heq
    have htwo : ¬marks line < 2 := by
      rw [← levelOfMarks?_eq_none_iff, hlevel]
      exact Option.some_ne_none _
    exact ⟨⟨Nat.le_of_not_lt htwo, hne⟩, hlevel, rfl⟩
  · rintro ⟨⟨-, hne⟩, hlevel, rfl⟩
    exact ⟨hne, level, hlevel, rfl⟩

theorem title?_eq_none_iff {line : List Char} : title? line = none ↔ ¬StartsHeader line := by
  rw [title?_eq, StartsHeader]
  split
  · next hnil => simp [hnil]
  · next hne =>
    rw [Option.map_eq_none_iff, levelOfMarks?_eq_none_iff, and_iff_left hne, Nat.not_le]

theorem isSpacing_char (d : Delimiter) : isSpacing d.char = false := by cases d <;> decide

/-- A delimiter ends the blanks behind a marker. -/
theorem title?_append_delim (front : List Char) (d : Delimiter) (rest : List Char) :
    title? (front ++ d.char :: rest) = (marker? front).map fun found =>
      (found.1, found.2.dropWhile isSpacing ++ d.char :: rest) := by
  have hmark : (d.char :: rest).head? ≠ some '!' := by cases d <;> simp [Delimiter.char]
  rw [title?, marker?_append front hmark]
  cases marker? front with
  | none => rfl
  | some found =>
    have hblank : (found.2 ++ d.char :: rest).dropWhile isSpacing =
        found.2.dropWhile isSpacing ++ d.char :: rest :=
      dropWhile_isSpacing_append found.2 (isSpacing_char d)
    simp only [Option.map_some, Option.bind_some, hblank, List.append_eq_nil_iff, reduceCtorEq,
      and_false, if_false]

namespace Rule

variable {line tail e rest title : List Char} {level : HeaderLevel}

theorem read_header_eq : header.read = (Expr.onMatch (.sequence
    [.rule .headerIntro, .oneOrMore (.rule .inlineContent), .rule .eol]) intoHeader).read read :=
  read_eq header

/-- The start of a header ends before the line does. -/
theorem frames_headerIntro_lineEnd (h : (lineEnd? tail).isSome) :
    headerIntro.read.Frames tail := by
  apply frames_headerIntro <;>
    rcases head?_of_lineEnd? h with hhead | hhead | hhead <;> rw [hhead] <;> decide

/-- What is left of a line behind the start of a header. -/
theorem read_headerIntro_line (h : IsLine line tail) {found : HeaderLevel × List Char}
    (hmarker : marker? line = some found) :
    ∃ m, headerIntro.read (line ++ tail) =
        some ⟨m, found.1.marker ++ found.2.takeWhile isSpacing,
          found.2.dropWhile isSpacing ++ tail⟩ ∧
      HeaderLevel.ofMarker? m.text = some found.1 ∧ IsLine (found.2.dropWhile isSpacing) tail := by
  obtain ⟨m, hm, hlevel⟩ := read_headerIntro hmarker
  have hframes := frames_headerIntro_lineEnd h.lineEnd line
  rw [hm] at hframes
  refine ⟨m, hframes, hlevel, ?_⟩
  have hcut := (exact_read headerIntro hm).text
  rw [hcut] at h
  exact h.of_append

theorem read_header_of_title?_eq_none (h : IsLine line tail) (htitle : title? line = none) :
    header.read (line ++ tail) = none := by
  rw [read_header_eq, Expr.read, Expr.read, Expr.readEach]
  cases hmarker : marker? line with
  | none =>
    have hintro : headerIntro.read (line ++ tail) = none := by
      rw [frames_headerIntro_lineEnd h.lineEnd line, read_headerIntro_eq_none hmarker]
      rfl
    simp [Expr.read, hintro]
  | some found =>
    -- Behind the marker and the blanks the line ends.
    have hnil : found.2.dropWhile isSpacing = [] := by
      refine Decidable.byContradiction fun hne => ?_
      rw [title?, hmarker, Option.bind_some, if_neg hne] at htitle
      exact Option.some_ne_none _ htitle
    obtain ⟨m, hm, -, -⟩ := read_headerIntro_line h hmarker
    rw [hnil, List.nil_append] at hm
    have hcontent := readOneOrMore_of_none (read_inlineContent_of_lineEnd h.lineEnd)
    simp [Expr.read, Expr.readEach, hm, hcontent]

theorem eq_of_title? (htitle : title? line = some (level, title)) :
    ∃ found, marker? line = some found ∧ found.1 = level ∧
      found.2.dropWhile isSpacing = title ∧ title ≠ [] := by
  obtain ⟨found, hmarker, hfound⟩ := Option.bind_eq_some_iff.mp htitle
  rw [Option.ite_none_left_eq_some] at hfound
  obtain ⟨hne, heq⟩ := hfound
  cases heq
  exact ⟨found, hmarker, rfl, rfl, hne⟩

/-- A line with a title is a header exactly if the title is not blocked. -/
theorem read_header_of_blocked (h : IsLine line tail) (htitle : title? line = some (level, title))
    (hblocked : Blocked title) : header.read (line ++ tail) = none := by
  obtain ⟨found, hmarker, rfl, rfl, -⟩ := eq_of_title? htitle
  obtain ⟨m, hm, -, hline⟩ := read_headerIntro_line h hmarker
  rw [read_header_eq, Expr.read, Expr.read, Expr.readEach, Expr.read, hm]
  cases hfirst : inlineContent.read (found.2.dropWhile isSpacing ++ tail) with
  | none => simp [Expr.read, Expr.readEach, readOneOrMore_of_none hfirst]
  | some first =>
    have hrounds := readOneOrMore_of_some (exact_read _) hfirst (progresses_inlineContent hfirst)
    rcases readRounds_inlineContent hline with ⟨hnot, -⟩ | ⟨-, d, after, hrest⟩
    · exact absurd hblocked hnot
    · have heol : eol.read (d.char :: after) = none :=
        (read_eol_eq_none_iff _).mpr (d.lineEnd?_cons after)
      rw [← hrest] at heol
      simp [Expr.read, Expr.readEach, hrounds, Reading.spanning, heol]

theorem read_header_of_title (h : IsLine line tail) (htitle : title? line = some (level, title))
    (hblocked : ¬Blocked title) (htail : lineEnd? tail = some (e, rest)) :
    ∃ m, header.read (line ++ tail) = some ⟨m, line ++ e, rest⟩ ∧
      m.node = some (.header level (scan title)) := by
  obtain ⟨found, hmarker, rfl, rfl, hne⟩ := eq_of_title? htitle
  obtain ⟨m, hm, hlevel, hline⟩ := read_headerIntro_line h hmarker
  rcases readRounds_inlineContent hline with ⟨-, hnodes, hrest⟩ | ⟨hyes, -⟩
  · obtain ⟨first, hfirst⟩ : ∃ first,
        inlineContent.read (found.2.dropWhile isSpacing ++ tail) = some first := by
      rw [← Option.ne_none_iff_exists']
      intro hnone
      rw [readRounds_of_none hnone] at hrest
      exact hne (List.append_left_eq_self.mp hrest)
    have hrounds := readOneOrMore_of_some (exact_read _) hfirst (progresses_inlineContent hfirst)
    have heol : eol.read tail = some (.leaf e rest) := by rw [read_eol, htail]; rfl
    rw [← hrest] at heol
    obtain ⟨front, heach⟩ : ∃ front, Expr.readEach read
        ([.rule .headerIntro, .oneOrMore (.rule .inlineContent), .rule .eol] : List MarkupExpr)
        (line ++ tail) = some ⟨[m, (Reading.spanning (readRounds inlineContent.read
          (found.2.dropWhile isSpacing ++ tail))).found, (Reading.leaf e rest).found],
            front, rest⟩ := by
      simp only [Expr.read, Expr.readEach, hm, Option.bind_some, hrounds, Reading.spanning, heol]
      exact ⟨_, rfl⟩
    have hread : ∃ m', header.read (line ++ tail) = some ⟨m', front, rest⟩ ∧
        m'.node = some (.header found.1 (scan (found.2.dropWhile isSpacing))) := by
      rw [read_header_eq, Expr.read, Expr.read, heach]
      refine ⟨_, rfl, ?_⟩
      simpa [Match.transformed, intoHeader, hlevel, Reading.spanning, gather, quietly,
        Match.takeNestedNodes, Match.takePartNodes, Stretch.nodes] using hnodes
    obtain ⟨m', hm', hnode⟩ := hread
    have hcut := exact_read header hm'
    rw [eq_of_lineEnd? htail, ← List.append_assoc] at hcut
    obtain rfl : front = line ++ e := hcut.front_eq
    exact ⟨m', hm', hnode⟩
  · exact absurd hyes hblocked

end Rule

end WikiMarkup
