import WikiMarkup.Proofs.Page.Parse

/-!
# Where a page fails

A page can be read exactly if each of its lines is a page that can be read. The failure of a page is
found on the first line that fails by itself, and names the start of this line.
-/

namespace WikiMarkup

namespace Page

variable {markup : String} {line : List Char}

/-- The line is a page that cannot be read. -/
def FailsAlone (line : String) : Prop := ∃ failure, parse line = .error failure

/-- The byte at which the line with the given index starts: each line before it takes its own bytes
and a line feed. -/
def lineStart (markup : String) (index : Nat) : Nat :=
  (((lines markup).take index).map fun line => line.utf8ByteSize + 1).sum

/-- A page of one line. -/
theorem parse_line (h : '\n' ∉ line) :
    (isReadable line → parse (String.ofList line) = .ok (.document (lineBlock? line).toList)) ∧
    (¬isReadable line → parse (String.ofList line) = .error (.noMatch 0 1 1)) := by
  have hlines : linesOf (String.ofList line).toList = [line] := by
    rw [String.toList_ofList, linesOf_of_not_mem h]
  constructor
  · intro hread
    rw [parse_of_readable (fun l hl => by simp_all), hlines]
    simp [blocks, laterBlocks]
  · intro hread
    have hfirst : linesOf (String.ofList line).toList = [] ++ line :: [] := hlines
    exact parse_of_not_readable hfirst (List.forall_mem_nil _) hread

theorem failsAlone_ofList (h : '\n' ∉ line) :
    FailsAlone (String.ofList line) ↔ ¬isReadable line := by
  obtain ⟨hok, herror⟩ := parse_line h
  constructor
  · rintro ⟨failure, hfailure⟩ hread
    rw [hok hread] at hfailure
    cases hfailure
  · intro hread
    exact ⟨_, herror hread⟩

theorem byteSize_unlines (lines : List (List Char)) :
    Text.byteSize (unlines lines) = (lines.map fun line => Text.byteSize line + 1).sum := by
  induction lines with
  | nil => rfl
  | cons line lines ih =>
    have hlf : '\n'.utf8Size = 1 := rfl
    rw [unlines_cons, Text.byteSize_append, Text.byteSize_cons, ih, hlf, List.map_cons,
      List.sum_cons, Nat.add_assoc]

section Split

variable {before after : List (List Char)} (h : linesOf markup.toList = before ++ line :: after)

include h

/-- The start of a line is the bytes of the lines before it with their line feeds. -/
theorem lineStart_eq : lineStart markup before.length = Text.byteSize (unlines before) := by
  have htake : (lines markup).take before.length = before.map String.ofList := by
    rw [lines, h, ← List.map_take, List.take_left]
  rw [lineStart, htake, byteSize_unlines, List.map_map]
  congr 1
  apply List.map_congr_left
  intro l _
  simp only [Function.comp_apply, Text.utf8ByteSize_ofList]

/-- The text of a page up to a line and from there on. -/
theorem exists_eq_unlines_append : ∃ rest, markup.toList = unlines before ++ (line ++ rest) := by
  obtain ⟨rest, hrest⟩ : ∃ rest, '\n' :: unlines after = rest ++ ['\n'] :=
    (unlines_eq_nil_or_concat ([] :: after)).resolve_left (List.cons_ne_nil _ _)
  have htext := unlines_linesOf markup.toList
  rw [h, unlines_append, unlines_cons, hrest, ← List.append_assoc, ← List.append_assoc] at htext
  refine ⟨rest, ?_⟩
  rw [← List.append_assoc]
  exact (List.append_cancel_right htext).symm

/-- A line that is not readable starts inside the page, at its start or behind a line feed. -/
theorem exists_at?_lineStart (hline : ¬isReadable line) :
    lineStart markup before.length < markup.utf8ByteSize ∧
    ∃ c, Cursor.at? markup (lineStart markup before.length) = .ok c ∧ line <+: c.rest ∧
      (lineStart markup before.length = 0 ∨ c.behind.head? = some '\n') := by
  obtain ⟨rest, hrest⟩ := exists_eq_unlines_append h
  have hstart := lineStart_eq h
  have hpos : Text.byteSize line ≠ 0 := by
    -- The empty line is blank, so it is readable.
    intro hzero
    obtain rfl := Text.byteSize_eq_zero.mp hzero
    exact hline (isReadable_of_isBlankLine rfl)
  have hsize : markup.utf8ByteSize =
      Text.byteSize (unlines before) + (Text.byteSize line + Text.byteSize rest) := by
    rw [← Text.byteSize_toList, hrest, Text.byteSize_append, Text.byteSize_append]
  have hplace : Cursor.at? markup (Text.byteSize (unlines before)) =
      .ok ⟨(unlines before).reverse ++ [], line ++ rest⟩ := Cursor.advance_of_rest_eq hrest
  rw [hstart]
  refine ⟨by omega, _, hplace, List.prefix_append line rest, ?_⟩
  rcases unlines_eq_nil_or_concat before with hnil | ⟨front, hfront⟩
  · exact .inl (by rw [hnil]; rfl)
  · exact .inr (by rw [hfront]; simp)

end Split

/-- A page cannot be read exactly if some line of it by itself cannot. Then the failure names the
first such line, the byte at which it starts, and column 1; this byte lies inside the page, at its
start or behind a line feed, and the line is what stands there. -/
theorem parse_error_iff_line (markup : String) :
    ((∃ failure, parse markup = .error failure) ↔ ∃ line ∈ lines markup, FailsAlone line) ∧
    ∀ failure, parse markup = .error failure →
      ∃ index line, (lines markup)[index]? = some line ∧ FailsAlone line ∧
        (∀ earlier ∈ (lines markup).take index, ¬FailsAlone earlier) ∧
        failure = .noMatch (lineStart markup index) (index + 1) 1 ∧
        lineStart markup index < markup.utf8ByteSize ∧
        ∃ c, Cursor.at? markup (lineStart markup index) = .ok c ∧ line.toList <+: c.rest ∧
          (lineStart markup index = 0 ∨ c.behind.head? = some '\n') := by
  have hfails {l : List Char} (hl : l ∈ linesOf markup.toList) :
      FailsAlone (String.ofList l) ↔ ¬isReadable l := failsAlone_ofList (not_mem_of_mem_linesOf hl)
  rcases readable_or_split (linesOf markup.toList) with
    hall | ⟨before, line, after, h, hbefore, hline⟩
  · have hok := parse_of_readable hall
    refine ⟨⟨?_, ?_⟩, ?_⟩
    · rintro ⟨failure, hfailure⟩
      rw [hok] at hfailure
      cases hfailure
    · rintro ⟨_, hmem, hfailure⟩
      obtain ⟨l, hl, rfl⟩ := List.mem_map.mp hmem
      exact absurd (hall l hl) ((hfails hl).mp hfailure)
    · intro failure hfailure
      rw [hok] at hfailure
      cases hfailure
  · have herror := parse_of_not_readable h hbefore hline
    have hmem : line ∈ linesOf markup.toList := by rw [h]; simp
    have hfailure := (hfails hmem).mpr hline
    refine ⟨⟨fun _ => ⟨_, List.mem_map_of_mem hmem, hfailure⟩, fun _ => ⟨_, herror⟩⟩, ?_⟩
    intro failure hfound
    obtain ⟨hlt, c, hc, hprefix, hplace⟩ := exists_at?_lineStart h hline
    refine ⟨before.length, String.ofList line, ?_, hfailure, ?_, ?_, hlt, c, hc, ?_, hplace⟩
    · simp [lines, h]
    · intro earlier hearlier
      rw [lines, h, ← List.map_take, List.take_left] at hearlier
      obtain ⟨l, hl, rfl⟩ := List.mem_map.mp hearlier
      rw [hfails (by rw [h]; exact List.mem_append_left _ hl)]
      exact not_not_intro (hbefore l hl)
    · rw [herror, ← lineStart_eq h] at hfound
      exact (Except.error.inj hfound).symm
    · rw [String.toList_ofList]
      exact hprefix

theorem parse_error_second_line : parse "ok\n**" = .error (.noMatch 3 2 1) ∧ FailsAlone "**" ∧
    ¬FailsAlone "ok" := by
  have hsplit : linesOf "ok\n**".toList = ["ok".toList] ++ "**".toList :: [] := by decide
  have hparse : parse "ok\n**" = .error (.noMatch 3 2 1) :=
    parse_of_not_readable hsplit (by decide) (by decide)
  have hlines : lines "ok\n**" = ["ok", "**"] := by decide
  obtain ⟨index, line, hline, hfails, hearlier, hfailure, -⟩ :=
    (parse_error_iff_line "ok\n**").2 _ hparse
  obtain rfl : index = 1 := by simpa using (ParseFailure.noMatch.inj hfailure).2.1.symm
  rw [hlines] at hline hearlier
  cases hline
  exact ⟨hparse, hfails, hearlier "ok" (by simp)⟩

end Page

end WikiMarkup
