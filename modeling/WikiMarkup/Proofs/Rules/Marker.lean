import WikiMarkup.Proofs.Peg.Frame
import WikiMarkup.Proofs.Rules.Reading

/-!
# Blanks and the marks of headers

A run of spaces and tabs is read by `takeWhile`. The start of a header is two, three or four
exclamation marks, as many as there are, and the blanks behind them.
-/

namespace WikiMarkup

open Peg

/-- A character that may stand before the title of a header and on a blank line. -/
def isSpacing (c : Char) : Bool := c == ' ' || c == '\t'

theorem all_isSpacing_iff {cs : List Char} : cs.all isSpacing ↔ ∀ c ∈ cs, c = ' ' ∨ c = '\t' := by
  simp [isSpacing]

/-- Blanks end before a text that does not start with one. -/
theorem dropWhile_isSpacing_append (cs : List Char) {tail : List Char}
    (h : tail.head?.any isSpacing = false) :
    (cs ++ tail).dropWhile isSpacing = cs.dropWhile isSpacing ++ tail := by
  have htail : tail.dropWhile isSpacing = tail := by
    cases tail with
    | nil => rfl
    | cons c tail => exact List.dropWhile_cons_of_neg (ne_true_of_eq_false h)
  rw [List.dropWhile_append, htail]
  split
  · next hnil => rw [List.isEmpty_iff.mp hnil, List.nil_append]
  · rfl

/-- The exclamation marks before a header. -/
def HeaderLevel.marker : HeaderLevel → List Char
  | .h1 => ['!', '!', '!', '!']
  | .h2 => ['!', '!', '!']
  | .h3 => ['!', '!']

theorem HeaderLevel.eq_of_mem_marker (level : HeaderLevel) {c : Char} (h : c ∈ level.marker) :
    c = '!' := by
  cases level <;> simpa [marker] using h

/-- The text after the marker of this level, if it starts with it. -/
def markerOf? (level : HeaderLevel) (cs : List Char) : Option (HeaderLevel × List Char) :=
  if level.marker.isPrefixOf cs then some (level, cs.drop level.marker.length) else none

/-- The longest marker at the head of a text, and the text after it. -/
def marker? (cs : List Char) : Option (HeaderLevel × List Char) :=
  (markerOf? .h1 cs).or ((markerOf? .h2 cs).or (markerOf? .h3 cs))

/-- A marker does not go on into a text without a mark at its head. -/
theorem markerOf?_append (level : HeaderLevel) (cs : List Char) {tail : List Char}
    (h : tail.head? ≠ some '!') : markerOf? level (cs ++ tail) =
      (markerOf? level cs).map fun found => (found.1, found.2 ++ tail) := by
  rw [markerOf?, markerOf?,
    isPrefixOf_append fun c hc hmem => h (level.eq_of_mem_marker hmem ▸ hc)]
  split
  · next hpre =>
    obtain ⟨rest, rfl⟩ := List.isPrefixOf_iff_prefix.mp hpre
    simp [List.append_assoc]
  · rfl

theorem marker?_append (cs : List Char) {tail : List Char} (h : tail.head? ≠ some '!') :
    marker? (cs ++ tail) = (marker? cs).map fun found => (found.1, found.2 ++ tail) := by
  simp only [marker?, markerOf?_append _ cs h, Option.map_or]

theorem eq_of_markerOf? {level : HeaderLevel} {cs : List Char} {found : HeaderLevel × List Char}
    (h : markerOf? level cs = some found) : cs = found.1.marker ++ found.2 := by
  rw [markerOf?, Option.ite_none_right_eq_some] at h
  obtain ⟨rest, rfl⟩ := List.isPrefixOf_iff_prefix.mp h.1
  cases h.2
  simp

theorem eq_of_marker? {cs rest : List Char} {level : HeaderLevel}
    (h : marker? cs = some (level, rest)) : cs = level.marker ++ rest := by
  rcases Option.or_eq_some_iff.mp h with h₁ | ⟨-, h₂₃⟩
  · exact eq_of_markerOf? h₁
  · rcases Option.or_eq_some_iff.mp h₂₃ with h₂ | ⟨-, h₃⟩
    · exact eq_of_markerOf? h₂
    · exact eq_of_markerOf? h₃

/-- A marker that is followed by something else is the longest one. -/
theorem marker?_marker (level : HeaderLevel) {rest : List Char} (h : rest.head? ≠ some '!') :
    marker? (level.marker ++ rest) = some (level, rest) := by
  have hmarker : marker? level.marker = some (level, []) := by cases level <;> rfl
  rw [marker?_append _ h, hmarker]
  rfl

/-! ## Counting marks -/

/-- How many exclamation marks a line starts with. -/
def marks (cs : List Char) : Nat := (cs.takeWhile (· == '!')).length

/-- The level of a header whose line starts with so many marks. -/
def levelOfMarks? (n : Nat) : Option HeaderLevel :=
  if 4 ≤ n then some .h1 else if n = 3 then some .h2 else if n = 2 then some .h3 else none

theorem levelOfMarks?_eq_none_iff {n : Nat} : levelOfMarks? n = none ↔ n < 2 := by
  grind [levelOfMarks?]

/-- A list starts with a run of one character if its longest run is long enough. -/
theorem replicate_isPrefixOf {c : Char} (k : Nat) (cs : List Char) :
    (List.replicate k c).isPrefixOf cs = decide (k ≤ (cs.takeWhile (· == c)).length) := by
  induction k generalizing cs with
  | zero => simp
  | succ k ih =>
    cases cs with
    | nil => simp [List.replicate_succ]
    | cons d cs =>
      by_cases hd : d = c
      · subst hd
        simp [List.replicate_succ, ih]
      · simp [List.replicate_succ, hd, Ne.symm hd, List.isPrefixOf]

theorem markerOf?_eq (level : HeaderLevel) (cs : List Char) : markerOf? level cs =
    if level.marker.length ≤ marks cs then some (level, cs.drop level.marker.length) else none := by
  have hmarker : level.marker.isPrefixOf cs = decide (level.marker.length ≤ marks cs) := by
    have hreplicate : level.marker = List.replicate level.marker.length '!' := by
      cases level <;> rfl
    rw [hreplicate, replicate_isPrefixOf, List.length_replicate, marks]
  rw [markerOf?, hmarker]
  simp only [decide_eq_true_eq]

/-- The marker of a line takes its marks, four at most, and there is one if there are two. -/
theorem marker?_eq (cs : List Char) : marker? cs =
    (levelOfMarks? (marks cs)).map fun level => (level, cs.drop (min (marks cs) 4)) := by
  have hcases : 4 ≤ marks cs ∨ marks cs = 3 ∨ marks cs = 2 ∨ marks cs < 2 := by omega
  simp only [marker?, markerOf?_eq, HeaderLevel.marker, List.length_cons, List.length_nil,
    levelOfMarks?]
  rcases hcases with h | h | h | h
  · rw [Nat.min_eq_right h]
    simp [h]
  · simp [h]
  · simp [h]
  · simp (disch := omega) [if_neg]

/-! ## What the rules of markers find -/

/-- A marker is all that counts in a text of a marker and blanks. -/
theorem HeaderLevel.ofMarker?_marker (level : HeaderLevel) {blanks : List Char}
    (h : ∀ c ∈ blanks, isSpacing c) :
    HeaderLevel.ofMarker? (String.ofList (level.marker ++ blanks)) = some level := by
  have hdrop : (level.marker ++ blanks).reverse.dropWhile isSpacing = level.marker.reverse := by
    rw [List.reverse_append, List.dropWhile_append_of_pos fun c hc => h c (List.mem_reverse.mp hc)]
    cases level <;> rfl
  unfold isSpacing at hdrop
  rw [HeaderLevel.ofMarker?, String.toList_ofList, hdrop]
  cases level <;> rfl

namespace Rule

theorem read_whitespace_eq : whitespace.read =
    (Expr.firstOf [.literal " ", .literal "\t"] : MarkupExpr).read read := read_eq whitespace

theorem takesOne_whitespace :
    Reader.TakesOne whitespace.read fun cs => cs.head?.any isSpacing := by
  rw [read_whitespace_eq]
  constructor
  · simp [Expr.read, Expr.readFirst]
  · intro c cs hc
    have hblank : c ≠ ' ' ∧ c ≠ '\t' := by simpa [isSpacing] using hc
    simp [Expr.read, Expr.readFirst, hblank.1.symm, hblank.2.symm]
  · intro c cs hc
    have hblank : c = ' ' ∨ c = '\t' := by simpa [isSpacing] using hc
    rcases hblank with rfl | rfl
    · exact ⟨_, by simp [Expr.read, Expr.readFirst, Reading.leaf]; rfl, rfl⟩
    · exact ⟨_, by simp [Expr.read, Expr.readFirst, Reading.leaf]; rfl, rfl⟩

theorem read_spacing_eq : spacing.read =
    (Expr.zeroOrMore (.rule whitespace) : MarkupExpr).read read := read_eq spacing

/-- Blanks are read up to the first other character. -/
theorem read_spacing (cs : List Char) : ∃ m, spacing.read cs =
    some ⟨m, cs.takeWhile isSpacing, cs.dropWhile isSpacing⟩ := by
  obtain ⟨hfront, hrest⟩ := takesOne_whitespace.readRounds cs
  rw [splitWhile_head] at hfront hrest
  rw [read_spacing_eq, Expr.read]
  exact ⟨_, by simp only [Reading.spanning, Expr.read, hfront, hrest]; rfl⟩

/-- The rule of the marker of a level. -/
def markerRule : HeaderLevel → Rule
  | .h1 => h1
  | .h2 => h2
  | .h3 => h3

theorem body_markerRule (level : HeaderLevel) :
    body (markerRule level) = .literal (String.ofList level.marker) := by
  cases level <;> rfl

theorem read_markerRule (level : HeaderLevel) (cs : List Char) : (markerRule level).read cs =
    (markerOf? level cs).map fun found => .leaf found.1.marker found.2 := by
  rw [read_eq, body_markerRule, Expr.read, String.toList_ofList, markerOf?]
  split <;> rfl

/-- The longest marker. -/
def marker : MarkupExpr :=
  .firstOf [.rule (markerRule .h1), .rule (markerRule .h2), .rule (markerRule .h3)]

theorem read_marker (cs : List Char) :
    marker.read read cs = (marker? cs).map fun found => .leaf found.1.marker found.2 := by
  simp only [marker, Expr.read, Expr.readFirst_cons, Expr.readFirst_nil, Option.or_none,
    read_markerRule, marker?, Option.map_or]

theorem read_headerIntro_eq :
    headerIntro.read = (Expr.sequence [marker, .rule spacing]).read read := read_eq headerIntro

theorem read_headerIntro_eq_none {cs : List Char} (h : marker? cs = none) :
    headerIntro.read cs = none := by
  have hmark := read_marker cs
  rw [h] at hmark
  rw [read_headerIntro_eq, Expr.read, Expr.readEach, hmark]
  rfl

theorem read_headerIntro {cs rest : List Char} {level : HeaderLevel}
    (h : marker? cs = some (level, rest)) :
    ∃ m, headerIntro.read cs = some ⟨m, level.marker ++ rest.takeWhile isSpacing,
        rest.dropWhile isSpacing⟩ ∧ HeaderLevel.ofMarker? m.text = some level := by
  have hmark := read_marker cs
  rw [h, Option.map_some] at hmark
  obtain ⟨m, hm⟩ := read_spacing rest
  have hblanks : ∀ c ∈ rest.takeWhile isSpacing, isSpacing c :=
    fun c hc => List.all_eq_true.mp List.all_takeWhile c hc
  have hlevel := level.ofMarker?_marker hblanks
  have heach : Expr.readEach read ([marker, .rule spacing] : List MarkupExpr) cs =
      some ⟨[.leaf (String.ofList level.marker) (Text.byteSize level.marker), m],
        level.marker ++ rest.takeWhile isSpacing, rest.dropWhile isSpacing⟩ := by
    simp [Expr.read, Expr.readEach, hmark, Reading.leaf, hm, Stretch.cons, Stretch.empty]
  rw [read_headerIntro_eq, Expr.read, heach]
  exact ⟨_, rfl, hlevel⟩

/-- A marker ends before a text that does not start with a mark. -/
theorem frames_markerRule {tail : List Char} (hmark : tail.head? ≠ some '!') (level : HeaderLevel) :
    (markerRule level).read.Frames tail := by
  rw [read_eq, body_markerRule]
  apply frames_literal
  intro c hc hmem
  rw [String.toList_ofList] at hmem
  exact hmark (level.eq_of_mem_marker hmem ▸ hc)

theorem frames_whitespace {tail : List Char} (hblank : tail.head?.any isSpacing = false) :
    whitespace.read.Frames tail := by
  have hnot {c : Char} (hc : tail.head? = some c) (hspacing : isSpacing c = true) : False := by
    rw [hc, Option.any_some, hspacing] at hblank
    cases hblank
  rw [read_whitespace_eq]
  apply Reader.Frames.firstOf
  intro e he
  simp only [List.mem_cons, List.not_mem_nil, or_false] at he
  rcases he with rfl | rfl
  · apply frames_literal
    intro c hc hmem
    obtain rfl : c = ' ' := by simpa using hmem
    exact hnot hc rfl
  · apply frames_literal
    intro c hc hmem
    obtain rfl : c = '\t' := by simpa using hmem
    exact hnot hc rfl

theorem frames_spacing {tail : List Char} (hblank : tail.head?.any isSpacing = false) :
    spacing.read.Frames tail := by
  rw [read_spacing_eq]
  exact Reader.Frames.zeroOrMore (frames_whitespace hblank)

/-- The start of a header ends before a text that starts with neither a mark nor a blank. -/
theorem frames_headerIntro {tail : List Char} (hmark : tail.head? ≠ some '!')
    (hblank : tail.head?.any isSpacing = false) : headerIntro.read.Frames tail := by
  rw [read_headerIntro_eq]
  apply Reader.Frames.sequence
  intro e he
  simp only [List.mem_cons, List.not_mem_nil, or_false] at he
  rcases he with rfl | rfl
  · apply Reader.Frames.firstOf
    intro e he
    simp only [List.mem_cons, List.not_mem_nil, or_false] at he
    rcases he with rfl | rfl | rfl
    · exact frames_markerRule hmark .h1
    · exact frames_markerRule hmark .h2
    · exact frames_markerRule hmark .h3
  · exact frames_spacing hblank

end Rule

end WikiMarkup
