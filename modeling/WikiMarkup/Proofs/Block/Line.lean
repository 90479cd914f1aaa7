import Mathlib.Data.List.TakeWhile
import WikiMarkup.Proofs.Block.Header

/-!
# Blocks are lines

A line is given here without its line feed; a carriage return at its end belongs to the line end.
The last line of a text may end with the text instead. Every line by itself is a header, a paragraph
or blocked, and a blank line is one of nothing but spaces and tabs. What stands on the lines before
and after does not matter.
-/

namespace WikiMarkup

open Peg

/-! ## Decidability -/

namespace Spans

instance : (s : Spans) → (e : Delimiter) → (after : List Piece) → Decidable (s.Opens e after)
  | .top _, e, after =>
    inferInstanceAs (Decidable (after ≠ [] ∧ after.head? ≠ some (.delim e)))
  | .outer _ d _, e, after => inferInstanceAs (Decidable (e = d ∨ Piece.startsRun after))
  | .nested .., _, _ => .isTrue trivial

instance decidableOpenable : (s : Spans) → (ps : List Piece) → Decidable (s.Openable ps)
  | _, [] => .isTrue trivial
  | s, .run cs :: ps => decidableOpenable (s.step (.run cs)) ps
  | s, .delim d :: ps =>
    have := decidableOpenable (s.step (.delim d)) ps
    inferInstanceAs (Decidable (s.Opens d ps ∧ (s.step (.delim d)).Openable ps))

end Spans

instance (line : List Char) : Decidable (Blocked line) := decidable_of_iff' _ blocked_iff

/-- Characters before the first delimiter do not block a line. -/
theorem blocked_append {front line : List Char} (h : ∀ d : Delimiter, d.char ∉ front) :
    Blocked (front ++ line) ↔ Blocked line := by
  induction front with
  | nil => exact Iff.rfl
  | cons c front ih =>
    have hc : Delimiter.ofChar? c = none :=
      Delimiter.ofChar?_eq_none_iff.mpr fun d hd => h d (by simp [hd])
    have hcut : Piece.cut (c :: front ++ line) = Piece.push c (Piece.cut (front ++ line)) := by
      rw [List.cons_append, Piece.cut, hc]
    rw [← ih fun d hd => h d (List.mem_cons_of_mem c hd), blocked_iff, blocked_iff, hcut]
    exact not_congr (Spans.openable_push _ c _)

/-! ## Lines -/

/-- A line without the carriage return of its line end. -/
def content (line : List Char) : List Char :=
  if line.getLast? = some '\r' then line.dropLast else line

theorem content_sublist (line : List Char) : (content line).Sublist line := by
  unfold content
  split
  · exact List.dropLast_sublist line
  · exact .refl line

theorem content_concat (cs : List Char) : content (cs ++ ['\r']) = cs := by
  rw [content, if_pos List.getLast?_concat, List.dropLast_concat]

/-- The block that a line is, unless it is blocked. -/
def lineBlock? (line : List Char) : Option Node :=
  if Blocked (content line) then none
  else
    match title? (content line) with
    | some (level, title) => some (.header level (scan title))
    | none => some (.paragraph (scan (content line)))

/-- The block of a line is the header of its title, or else a paragraph of all of it. -/
theorem of_lineBlock?_eq_some {line : List Char} {n : Node} (h : lineBlock? line = some n) :
    ¬Blocked (content line) ∧
      ((∃ level title, title? (content line) = some (level, title) ∧
        n = .header level (scan title)) ∨
      (title? (content line) = none ∧ n = .paragraph (scan (content line)))) := by
  rw [lineBlock?, Option.ite_none_left_eq_some] at h
  refine ⟨h.1, ?_⟩
  cases htitle : title? (content line) with
  | some found =>
    rw [htitle] at h
    exact .inl ⟨found.1, found.2, rfl, (Option.some.inj h.2).symm⟩
  | none =>
    rw [htitle] at h
    exact .inr ⟨rfl, (Option.some.inj h.2).symm⟩

/-- Nothing but spaces and tabs up to the line end. -/
def isBlankLine (line : List Char) : Bool := (content line).all isSpacing

theorem not_mem_content {line : List Char} (h : '\n' ∉ line) : '\n' ∉ content line := fun hmem =>
  h ((content_sublist line).subset hmem)

theorem not_mem_title {line title : List Char} {level : HeaderLevel} (h : '\n' ∉ line)
    (htitle : title? line = some (level, title)) : '\n' ∉ title := by
  obtain ⟨found, hmarker, rfl, rfl, -⟩ := Rule.eq_of_title? htitle
  have hline : line = found.1.marker ++ found.2 := eq_of_marker? hmarker
  rw [hline] at h
  intro hmem
  exact h (List.mem_append_right _ ((List.dropWhile_sublist _).subset hmem))

/-- The text `cs` is the line, then its line end `e`, then `rest`. A carriage return at the end of
the line is part of the line end. -/
structure FirstLine (line e rest cs : List Char) : Prop where
  text : cs = content line ++ (e ++ rest)
  isLine : IsLine (content line) (e ++ rest)
  lineEnd : lineEnd? (e ++ rest) = some (e, rest)

section FirstLine

variable {line e rest cs : List Char}

/-- A line feed ends a line. -/
theorem exists_firstLine_lf (h : '\n' ∉ line) (rest : List Char) :
    ∃ e, FirstLine line e rest (line ++ '\n' :: rest) := by
  by_cases hcr : line.getLast? = some '\r'
  · obtain ⟨front, rfl⟩ := List.getLast?_eq_some_iff.mp hcr
    have hline : IsLine front ('\r' :: '\n' :: rest) :=
      .of_not_mem (fun hmem => h (List.mem_append_left _ hmem)) (fun _ => by simp) rfl
    refine ⟨['\r', '\n'], ?_, ?_, rfl⟩
    · rw [content_concat, List.append_assoc]
      rfl
    · rwa [content_concat]
  · have hcontent : content line = line := if_neg hcr
    refine ⟨['\n'], ?_, ?_, rfl⟩
    · rw [hcontent]
      rfl
    · rw [hcontent]
      exact .of_not_mem h (fun hc => absurd hc hcr) rfl

/-- The end of the text ends a line too, and then the line has no carriage return to lose. -/
theorem firstLine_end (h : '\n' ∉ line) (hcr : line.getLast? ≠ some '\r') :
    FirstLine line [] [] line := by
  have hcontent : content line = line := if_neg hcr
  refine ⟨?_, ?_, rfl⟩
  · rw [hcontent, List.append_nil, List.append_nil]
  · rw [hcontent]
    exact .of_not_mem h (fun hc => absurd hc hcr) rfl

/-- A line of a text that goes on has some character, if only that of the line end. -/
theorem FirstLine.ne_nil (h : FirstLine line e rest cs) (hne : cs ≠ []) :
    content line ++ e ≠ [] := by
  intro hnil
  obtain ⟨hline, rfl⟩ := List.append_eq_nil_iff.mp hnil
  have hend : lineEnd? rest = some ([], rest) := h.lineEnd
  have hrest : rest = [] := by
    unfold lineEnd? at hend
    split at hend <;> cases hend
    rfl
  apply hne
  rw [h.text, hline, hrest]
  rfl

end FirstLine

/-- A title is blocked exactly if its line is. -/
theorem blocked_title_iff {line title : List Char} {level : HeaderLevel}
    (h : title? line = some (level, title)) : Blocked title ↔ Blocked line := by
  obtain ⟨found, hmarker, rfl, rfl, -⟩ := Rule.eq_of_title? h
  have hline : line = found.1.marker ++ found.2 := eq_of_marker? hmarker
  rw [← List.takeWhile_append_dropWhile (p := isSpacing) (l := found.2),
    ← List.append_assoc] at hline
  have hmarks : ∀ d : Delimiter, d.char ∉ found.1.marker := by
    cases found.1 <;> rintro (_ | _) <;> decide
  have hblanks : ∀ d : Delimiter, d.char ∉ found.2.takeWhile isSpacing := by
    intro d hd
    have hspacing := List.all_eq_true.mp List.all_takeWhile _ hd
    cases d <;> exact absurd hspacing (by decide)
  rw [hline, blocked_append]
  intro d hd
  rcases List.mem_append.mp hd with hd | hd
  · exact hmarks d hd
  · exact hblanks d hd

namespace Rule

/-- What a block starts with. -/
def blockLine : MarkupExpr := .firstOf [.rule .header, .rule .paragraph]

theorem read_blockLine (cs : List Char) :
    blockLine.read read cs = (header.read cs).or (paragraph.read cs) := by
  simp only [blockLine, Expr.read, Expr.readFirst_cons, Expr.readFirst_nil, Option.or_none]

variable {line e rest cs : List Char}

section Block

variable (h : FirstLine line e rest cs)

include h

theorem read_blockLine_of_blocked (hblock : lineBlock? line = none) :
    blockLine.read read cs = none := by
  have hblocked : Blocked (content line) := by
    unfold lineBlock? at hblock
    split at hblock
    · assumption
    · split at hblock <;> cases hblock
  have hheader : header.read (content line ++ (e ++ rest)) = none := by
    cases htitle : title? (content line) with
    | none => exact read_header_of_title?_eq_none h.isLine htitle
    | some found =>
      have htitleBlocked := (blocked_title_iff htitle).mpr hblocked
      exact read_header_of_blocked h.isLine htitle htitleBlocked
  rw [h.text, read_blockLine, hheader, read_paragraph_of_blocked h.isLine hblocked]
  rfl

theorem exists_read_blockLine {n : Node} (hblock : lineBlock? line = some n) :
    ∃ m, blockLine.read read cs = some ⟨m, content line ++ e, rest⟩ ∧ m.node = some n := by
  rw [h.text, read_blockLine]
  obtain ⟨hopen, ⟨level, title, htitle, rfl⟩ | ⟨htitle, rfl⟩⟩ := of_lineBlock?_eq_some hblock
  · have htitleOpen : ¬Blocked title := mt (blocked_title_iff htitle).mp hopen
    obtain ⟨m, hm, hfound⟩ := read_header_of_title h.isLine htitle htitleOpen h.lineEnd
    exact ⟨m, by rw [hm, Option.some_or], hfound⟩
  · obtain ⟨m, hm, -, hfound⟩ := read_paragraph h.isLine hopen h.lineEnd
    have hheader := read_header_of_title?_eq_none h.isLine htitle
    exact ⟨m, by rw [hheader, hm, Option.none_or], hfound⟩

end Block

/-- One round of skipping blank lines. -/
def blankLine : MarkupExpr := .sequence [.rule .spacing, .rule .eol]

/-- Blanks and a line end are read, whatever the blanks. -/
theorem read_blankLine (cs : List Char) : ∃ m : List Char × List Char → Match Node,
    blankLine.read read cs = (lineEnd? (cs.dropWhile isSpacing)).map fun e =>
      ⟨m e, cs.takeWhile isSpacing ++ e.1, e.2⟩ := by
  obtain ⟨m, hm⟩ := read_spacing cs
  refine ⟨fun e => ⟨String.ofList (cs.takeWhile isSpacing ++ e.1),
    Text.byteSize (cs.takeWhile isSpacing ++ e.1), none, [m, (Reading.leaf e.1 e.2).found]⟩, ?_⟩
  cases he : lineEnd? (cs.dropWhile isSpacing) with
  | none => simp [blankLine, Expr.read, Expr.readEach, hm, read_eol, he]
  | some e =>
    simp [blankLine, Expr.read, Expr.readEach, hm, read_eol, he, Reading.spanning, Stretch.cons,
      Stretch.empty, Reading.leaf]

/-- Blanks at the start of a line end with the line. -/
theorem dropWhile_line {tail : List Char} (h : (lineEnd? tail).isSome) :
    (line ++ tail).dropWhile isSpacing = line.dropWhile isSpacing ++ tail := by
  apply dropWhile_isSpacing_append
  rcases head?_of_lineEnd? h with hhead | hhead | hhead <;> rw [hhead] <;> rfl

/-- A round of skipping takes a blank line with its line end, and no other line. -/
theorem read_blankLine_line (h : FirstLine line e rest cs) :
    (isBlankLine line = false → blankLine.read read cs = none) ∧
    (isBlankLine line = true → ∃ m,
      blankLine.read read cs = some ⟨m, content line ++ e, rest⟩) := by
  obtain ⟨m, hm⟩ := read_blankLine cs
  have hline := h.isLine
  rw [h.text, dropWhile_line hline.lineEnd] at hm
  rw [h.text]
  constructor
  · intro hblank
    have hne : (content line).dropWhile isSpacing ≠ [] := by
      intro hnil
      rw [isBlankLine, ← Bool.not_eq_true, List.all_eq_true] at hblank
      exact hblank (List.dropWhile_eq_nil_iff.mp hnil)
    obtain ⟨c, cs, hcs⟩ := List.exists_cons_of_ne_nil hne
    rw [← List.takeWhile_append_dropWhile (p := isSpacing) (l := content line), hcs] at hline
    rw [hm, hcs, hline.of_append.clear.1]
    rfl
  · intro hblank
    have hnil : (content line).dropWhile isSpacing = [] :=
      List.dropWhile_eq_nil_iff.mpr (List.all_eq_true.mp hblank)
    rw [hnil, List.nil_append, h.lineEnd, Option.map_some] at hm
    have hcut := exact_expr blankLine hm
    rw [← List.append_assoc] at hcut
    have hfront := hcut.front_eq
    rw [List.append_assoc] at hfront
    rw [← hfront]
    exact ⟨_, hm⟩

end Rule

end WikiMarkup
