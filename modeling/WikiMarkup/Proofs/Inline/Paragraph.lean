import WikiMarkup.Proofs.Inline.Content

/-!
# Paragraphs are scanned lines

A paragraph takes one line with its line end. Its children are the nodes of one pass over the line,
and the rule fails exactly if the pass meets a delimiter that cannot open its span.
-/

namespace WikiMarkup

open Peg

namespace Rule

variable {line tail e rest : List Char}

theorem read_paragraph_eq : paragraph.read =
    (Expr.onMatch (.sequence [.zeroOrMore (.rule .inlineContent), .rule .eol])
      (gather 0 .paragraph)).read read := read_eq paragraph

theorem read_paragraph_of_blocked (h : IsLine line tail) (hblocked : Blocked line) :
    paragraph.read (line ++ tail) = none := by
  rcases readRounds_inlineContent h with ⟨hnot, -⟩ | ⟨-, d, after, hrest⟩
  · exact absurd hblocked hnot
  · have heol : eol.read (d.char :: after) = none :=
      (read_eol_eq_none_iff _).mpr (d.lineEnd?_cons after)
    rw [← hrest] at heol
    rw [read_paragraph_eq]
    simp [Expr.read, Expr.readEach, Reading.spanning, heol]

theorem read_paragraph (h : IsLine line tail) (hblocked : ¬Blocked line)
    (htail : lineEnd? tail = some (e, rest)) :
    ∃ m, paragraph.read (line ++ tail) = some ⟨m, line ++ e, rest⟩ ∧
      m.text = String.ofList (line ++ e) ∧ m.node = some (.paragraph (scan line)) := by
  rcases readRounds_inlineContent h with ⟨-, hnodes, hrest⟩ | ⟨hyes, -⟩
  · have heol : eol.read tail = some (.leaf e rest) := by rw [read_eol, htail]; rfl
    have hfront : (readRounds inlineContent.read (line ++ tail)).front = line := by
      have hcut := readRounds_isCut (exact_read inlineContent) (line ++ tail)
      apply Stretch.IsCut.front_eq
      rwa [hrest]
    rw [← hrest] at heol
    have heach : Expr.readEach read
        ([.zeroOrMore (.rule .inlineContent), .rule .eol] : List MarkupExpr) (line ++ tail) =
        some (.cons (.spanning (readRounds inlineContent.read (line ++ tail)))
          (.cons (.leaf e rest) (.empty rest))) := by
      simp [Expr.read, Expr.readEach, Reading.spanning, Reading.leaf, heol]
    rw [read_paragraph_eq, Expr.read, Expr.read, heach]
    simp only [Stretch.cons, Stretch.empty, Reading.spanning, Reading.leaf, hfront, List.append_nil,
      Option.map_some]
    exact ⟨_, rfl, rfl, congrArg (fun ns => some (Node.paragraph ns)) hnodes⟩
  · exact absurd hyes hblocked

end Rule

/-- Applied to a line with its line end, the rule for paragraphs fails exactly if the line is
blocked, and otherwise takes all of it, with the nodes of the pass over the line. -/
theorem run_paragraph_eq_scan (line : String) (h : '\n' ∉ line.toList) :
    (Blocked line.toList → Rule.paragraph.run (.ofString (line ++ "\r\n")) = .ok .fail) ∧
    (¬Blocked line.toList → ∃ parts, Rule.paragraph.run (.ofString (line ++ "\r\n")) =
      .ok (.succeed ⟨line ++ "\r\n", (line ++ "\r\n").utf8ByteSize,
        some (.paragraph (scan line.toList)), parts⟩)) := by
  have hline : IsLine line.toList ['\r', '\n'] := .of_not_mem h (fun _ => by decide) rfl
  have hrest : (Cursor.ofString (line ++ "\r\n")).rest = line.toList ++ ['\r', '\n'] := by
    simp [Cursor.ofString, Cursor.ofList]
  rw [Rule.run_eq, hrest]
  constructor
  · intro hblocked
    rw [Rule.read_paragraph_of_blocked hline hblocked]
    rfl
  · intro hblocked
    obtain ⟨m, hm, htext, hnode⟩ := Rule.read_paragraph hline hblocked (lineEnd?_crlf [])
    have hconsumed := (Rule.exact_read _ hm).consumed
    have hwhole : line.toList ++ ['\r', '\n'] = (line ++ "\r\n").toList := by simp
    rw [hwhole, String.ofList_toList] at htext
    rw [hwhole, Text.byteSize_toList] at hconsumed
    obtain ⟨text, consumed, node, parts⟩ := m
    cases htext
    cases hconsumed
    cases hnode
    rw [hm]
    exact ⟨parts, rfl⟩

/-- Spans that are left open end with the line, the nested one first. -/
theorem run_paragraph_unclosed : '\n' ∉ "*a/b".toList ∧
    ∃ parts, Rule.paragraph.run (.ofString "*a/b\r\n") = .ok (.succeed ⟨"*a/b\r\n", 6,
      some (.paragraph [.bold [.text "a", .italics [.text "b"]]]), parts⟩) := by
  have hlf : '\n' ∉ "*a/b".toList := by decide
  have hopen : ¬Blocked "*a/b".toList := by
    rw [blocked_iff, Classical.not_not]
    exact ⟨⟨by decide, by decide⟩, .inr rfl, trivial⟩
  have hscan : scan "*a/b".toList = [.bold [.text "a", .italics [.text "b"]]] := by
    have hspans : scan "*a/b".toList =
        [.bold (Rule.leaves ['a'] ++ [.italics (Rule.leaves ['b'])])] := rfl
    rw [hspans, Rule.leaves_lowercase (by decide) rfl, Rule.leaves_lowercase (by decide) rfl]
    rfl
  obtain ⟨parts, hrun⟩ := (run_paragraph_eq_scan "*a/b" hlf).2 hopen
  rw [hscan] at hrun
  exact ⟨hlf, parts, hrun⟩

end WikiMarkup
