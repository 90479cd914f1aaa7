import WikiMarkup.Proofs.Inline.Content
import WikiMarkup.Proofs.Peg.Line

/-!
# Inline rules keep to their line

Spans, links, texts and what they are made of are read from one line. Their lookaheads see the line
end and stop there, so what comes after it, if anything does, changes nothing, and none of them
consumes a line feed.
-/

namespace WikiMarkup

open Peg

namespace Rule

variable {d : Delimiter} {line : List Char}

/-! ## Line ends, delimiters and words -/

/-- A line end is seen up to its line feed. -/
theorem looksInLine_eol : eol.read.LooksInLine := by
  intro line hlf
  obtain ⟨found, hfound⟩ : ∃ found : Option (List Char), ∀ rest,
      (lineEnd? (line ++ '\n' :: rest)).map Prod.fst = found := by
    rcases line with _ | ⟨c, _ | ⟨c', cs⟩⟩
    · exact ⟨some ['\n'], fun _ => rfl⟩
    · by_cases hcr : c = '\r'
      · subst hcr
        exact ⟨some ['\r', '\n'], fun _ => rfl⟩
      · refine ⟨none, fun rest => ?_⟩
        rw [List.singleton_append, lineEnd?_cons_eq_none (by rintro rfl; simp at hlf)
          fun h => absurd h hcr]
        rfl
    · refine ⟨none, fun rest => ?_⟩
      have hnext : c' ≠ '\n' := by
        rintro rfl
        simp at hlf
      have hhead : ((c' :: cs) ++ '\n' :: rest).head? ≠ some '\n' := by simpa using hnext
      rw [List.cons_append, lineEnd?_cons_eq_none (by rintro rfl; simp at hlf) fun _ => hhead]
      rfl
  refine ⟨found.map fun front => .leaf (String.ofList front) (Text.byteSize front), ?_⟩
  intro rest
  rw [read_eol, ← hfound rest, Option.map_map, Option.map_map]
  rfl

theorem keepsLine_delimRule (d : Delimiter) : d.delimRule.read.KeepsLine := by
  refine Reader.Frames.keepsLine ?_ (exact_read _)
  intro rest
  rw [read_eq, body_delimRule]
  apply frames_literal
  intro c hc
  obtain rfl : c = '\n' := (Option.some.inj hc).symm
  cases d <;> decide

theorem keepsLine_link : link.read.KeepsLine :=
  Reader.Frames.keepsLine (fun _ => frames_link rfl rfl) (exact_read link)

theorem keepsLine_ahead (r : Rule) (h : r.read.LooksInLine) :
    Reader.KeepsLine ((Expr.ahead (.rule r) : MarkupExpr).read read) :=
  Reader.LooksInLine.ahead (e := .rule r) h

theorem keepsLine_endRule (d : Delimiter) : d.endRule.read.KeepsLine := by
  rw [read_eq, body_endRule]
  apply Reader.KeepsLine.firstOf
  exact ⟨keepsLine_delimRule d, keepsLine_ahead eol looksInLine_eol⟩

theorem keepsLine_nestedEnd : nestedEnd.read.KeepsLine := by
  rw [read_eq]
  apply Reader.KeepsLine.firstOf
  exact ⟨keepsLine_endRule .slash, keepsLine_ahead _ (keepsLine_endRule .star).looksInLine⟩

/-! ## Texts -/

/-- Whether a text goes on is decided on the line. -/
theorem textGoes_line {c : Char} {cs : List Char} (hlf : '\n' ∉ c :: cs) :
    ∃ goes : Bool, ∀ rest, textGoes (c :: cs ++ '\n' :: rest) = goes := by
  obtain ⟨lineEnd, hlineEnd⟩ := looksInLine_eol (c :: cs) hlf
  obtain ⟨word, hword⟩ := keepsLine_link.looksInLine (c :: cs) hlf
  refine ⟨lineEnd.isNone && (Delimiter.ofChar? c).isNone && word.isNone, ?_⟩
  intro rest
  rw [← hlineEnd rest, ← hword rest, read_eol]
  simp [textGoes]

theorem splitWhile_textGoes_line (hlf : '\n' ∉ line) :
    ∃ front after, line = front ++ after ∧ ∀ rest,
      splitWhile textGoes (line ++ '\n' :: rest) = (front, after ++ '\n' :: rest) := by
  induction line with
  | nil =>
    refine ⟨[], [], rfl, fun rest => ?_⟩
    have hstop : Stops ('\n' :: rest) := .inr rfl
    simp [splitWhile, (isRun_nil hstop).not_textGoes_tail]
  | cons c cs ih =>
    obtain ⟨front, after, hcs, hsplit⟩ := ih fun hmem => hlf (List.mem_cons_of_mem c hmem)
    obtain ⟨goes, hgoes⟩ := textGoes_line hlf
    cases goes with
    | false =>
      refine ⟨[], c :: cs, rfl, fun rest => ?_⟩
      have hstop := hgoes rest
      rw [List.cons_append] at hstop ⊢
      simp [splitWhile, hstop]
    | true =>
      refine ⟨c :: front, after, by rw [hcs]; rfl, fun rest => ?_⟩
      have hgo := hgoes rest
      rw [List.cons_append] at hgo ⊢
      simp [splitWhile, hgo, hsplit rest]

theorem keepsLine_text : text.read.KeepsLine := by
  intro line hlf
  obtain ⟨front, after, hline, hsplit⟩ := splitWhile_textGoes_line hlf
  by_cases hfront : front = []
  · refine ⟨none, by simp, fun rest => ?_⟩
    rw [read_text, hsplit, if_pos hfront]
    rfl
  · refine ⟨some (textReading (front, after)), ?_, fun rest => ?_⟩
    · rintro r hr
      cases hr
      exact hline
    · rw [read_text, hsplit, if_neg hfront]
      rfl

/-! ## Spans and what they are made of -/

theorem keepsLine_leaf : Reader.KeepsLine (leaf.read read) := by
  apply Reader.KeepsLine.firstOf
  exact ⟨keepsLine_link, keepsLine_text⟩

theorem keepsLine_guarded (guard e : MarkupExpr) (hguard : Reader.LooksInLine (guard.read read))
    (h : Reader.KeepsLine (e.read read)) : Reader.KeepsLine ((guarded guard e).read read) := by
  apply Reader.KeepsLine.onMatch
  apply Reader.KeepsLine.sequence
  exact ⟨hguard.notAhead, h⟩

theorem keepsLine_gathered (opening content closing : MarkupExpr) (make : List Node → Node)
    (hopening : Reader.KeepsLine (opening.read read))
    (hcontent : Reader.KeepsLine (content.read read))
    (hclosing : Reader.KeepsLine (closing.read read)) :
    Reader.KeepsLine ((gathered opening content closing make).read read) := by
  apply Reader.KeepsLine.onMatch
  apply Reader.KeepsLine.sequence
  exact ⟨hopening, hcontent.oneOrMore, hclosing⟩

theorem keepsLine_nestedContentRule (d : Delimiter) : d.nestedContentRule.read.KeepsLine := by
  rw [read_nestedContentRule]
  exact keepsLine_guarded (.rule nestedEnd) leaf keepsLine_nestedEnd.looksInLine keepsLine_leaf

theorem keepsLine_nestedRule (d : Delimiter) : d.nestedRule.read.KeepsLine := by
  rw [read_nestedRule]
  refine keepsLine_gathered _ _ _ _ (keepsLine_delimRule d) (keepsLine_nestedContentRule d) ?_
  apply Reader.KeepsLine.firstOf
  exact ⟨keepsLine_endRule d, keepsLine_ahead _ (keepsLine_endRule d.other).looksInLine⟩

theorem keepsLine_contentRule (d : Delimiter) : d.contentRule.read.KeepsLine := by
  rw [read_contentRule]
  refine keepsLine_guarded _ _ (keepsLine_endRule d).looksInLine ?_
  apply Reader.KeepsLine.firstOf
  exact ⟨keepsLine_link, keepsLine_nestedRule d.other, keepsLine_text⟩

theorem keepsLine_spanRule (d : Delimiter) : d.spanRule.read.KeepsLine := by
  rw [read_spanRule]
  exact keepsLine_gathered _ _ _ _ (keepsLine_delimRule d) (keepsLine_contentRule d)
    (keepsLine_endRule d)

theorem keepsLine_inlineContent : inlineContent.read.KeepsLine := by
  rw [read_eq]
  apply Reader.KeepsLine.firstOf
  exact ⟨keepsLine_spanRule .star, keepsLine_spanRule .slash, keepsLine_link, keepsLine_text⟩

/-! ## All inline rules -/

/-- The rules for what a line is made of. -/
def inlineRules : List Rule :=
  [.inlineContent, .link, .text, .bold, .boldContent, .boldWithoutItalics,
   .boldWithoutItalicsContent, .italics, .italicsContent, .italicsWithoutBold,
   .italicsWithoutBoldContent]

variable {r : Rule}

/-- The inline rules are those of the two delimiters, links, texts and the choice of them all. -/
theorem eq_of_mem_inlineRules : ∀ r ∈ inlineRules,
    r = .inlineContent ∨ r = .link ∨ r = .text ∨ ∃ d ∈ [Delimiter.star, .slash],
      r = d.spanRule ∨ r = d.contentRule ∨ r = d.nestedRule ∨ r = d.nestedContentRule := by
  decide

theorem keepsLine_of_mem (h : r ∈ inlineRules) : r.read.KeepsLine := by
  rcases eq_of_mem_inlineRules r h with rfl | rfl | rfl | ⟨d, -, rfl | rfl | rfl | rfl⟩
  · exact keepsLine_inlineContent
  · exact keepsLine_link
  · exact keepsLine_text
  · exact keepsLine_spanRule d
  · exact keepsLine_contentRule d
  · exact keepsLine_nestedRule d
  · exact keepsLine_nestedContentRule d

theorem spells_link : link.read.Spells := by
  rw [read_link]
  exact (Reader.spells_sequence _).onMatch intoLink

theorem spells_text : text.read.Spells := by
  intro cs r hr
  rw [read_text, Option.ite_none_left_eq_some] at hr
  cases hr.2
  rfl

theorem spells_guarded (guard e : MarkupExpr) : Reader.Spells ((guarded guard e).read read) :=
  (Reader.spells_sequence _).onMatch (lift 1)

theorem spells_gathered (opening content closing : MarkupExpr) (make : List Node → Node) :
    Reader.Spells ((gathered opening content closing make).read read) :=
  (Reader.spells_sequence _).onMatch (gather 1 make)

theorem spells_spanRule (d : Delimiter) : d.spanRule.read.Spells := by
  rw [read_spanRule]
  exact spells_gathered ..

/-- The match of an inline rule has the text that it consumed. -/
theorem spells_of_mem (h : r ∈ inlineRules) : r.read.Spells := by
  rcases eq_of_mem_inlineRules r h with rfl | rfl | rfl | ⟨d, -, rfl | rfl | rfl | rfl⟩
  · rw [read_eq]
    apply Reader.Spells.firstOf
    exact ⟨spells_spanRule .star, spells_spanRule .slash, spells_link, spells_text⟩
  · exact spells_link
  · exact spells_text
  · exact spells_spanRule d
  · rw [read_contentRule]
    exact spells_guarded ..
  · rw [read_nestedRule]
    exact spells_gathered ..
  · rw [read_nestedContentRule]
    exact spells_guarded ..

/-- Applied at a place of a line, an inline rule has the same outcome whatever comes after the line
feed that ends the line: it fails, or finds the same match with the same node and parts. The text
that it consumes is that of its match, and has no line feed. -/
theorem run_inline_line (hr : r ∈ inlineRules) {u : String} {i : Nat} {place : Cursor}
    (hplace : Cursor.at? u i = .ok place) (hlf : '\n' ∉ place.rest) :
    ∃ found : Option (Match Node), ∀ v : String, ∃ c,
      Cursor.at? (u ++ "\n" ++ v) i = .ok c ∧ r.run c = .ok ⟨found, []⟩ ∧
      ∀ m, found = some m → c.slice m.consumed = .ok m.text ∧ '\n' ∉ m.text.toList := by
  obtain ⟨found, hpart, hfound⟩ := keepsLine_of_mem hr place.rest hlf
  obtain ⟨before, hu, -, rfl⟩ := Cursor.exists_front_of_advance hplace
  refine ⟨found.map Reading.found, ?_⟩
  intro v
  have htext : (Cursor.ofString (u ++ "\n" ++ v)).rest =
      before ++ (place.rest ++ '\n' :: v.toList) := by
    have hline : u.toList = before ++ place.rest := hu
    simp [Cursor.ofString, Cursor.ofList, hline]
  refine ⟨_, Cursor.advance_of_rest_eq htext, ?_, ?_⟩
  · rw [run_eq, hfound, Option.map_map]
    rfl
  · intro m hm
    obtain ⟨x, rfl, rfl⟩ := Option.map_eq_some_iff.mp hm
    have hread := hfound v.toList
    rw [Option.map_some] at hread
    have hcut := exact_read r hread
    have hspells := spells_of_mem hr hread
    change x.found.text = String.ofList x.front at hspells
    have hconsumed : x.found.consumed = Text.byteSize x.front := hcut.consumed
    constructor
    · rw [hspells, hconsumed]
      exact Cursor.slice_of_rest_eq hcut.text
    · intro hmem
      rw [hspells, String.toList_ofList] at hmem
      apply hlf
      rw [hpart x rfl]
      exact List.mem_append_left _ hmem

/-- A span that the line feed ends, with another line before its own: its match is all of what is
left of the line. -/
theorem run_inline_line_unclosed : ∃ m : Match Node, m.text = "*a/b" ∧ m.consumed = 4 ∧
    ∀ v : String, ∃ c, Cursor.at? ("é\n*a/b" ++ "\n" ++ v) 3 = .ok c ∧
      Rule.bold.run c = .ok ⟨some m, []⟩ ∧ c.slice m.consumed = .ok m.text ∧
      '\n' ∉ m.text.toList := by
  have hplace : Cursor.at? "é\n*a/b" 3 = .ok ⟨['\n', 'é'], ['*', 'a', '/', 'b']⟩ := rfl
  obtain ⟨found, hfound⟩ := run_inline_line (r := .bold) (by decide) hplace (by decide)
  obtain ⟨c, hc, hrun, -⟩ := hfound ""
  have hfirst : Cursor.at? ("é\n*a/b" ++ "\n" ++ "") 3 =
      .ok ⟨['\n', 'é'], ['*', 'a', '/', 'b', '\n']⟩ := rfl
  obtain rfl := Except.ok.inj (hc.symm.trans hfirst)
  have hmatch : (Rule.bold.run ⟨['\n', 'é'], ['*', 'a', '/', 'b', '\n']⟩).toOption.map
      (fun reply => reply.value.map fun m => (m.text, m.consumed)) = some (some ("*a/b", 4)) := by
    decide +kernel
  rw [hrun] at hmatch
  obtain ⟨m, rfl, hm⟩ := Option.map_eq_some_iff.mp (Option.some.inj hmatch)
  refine ⟨m, congrArg Prod.fst hm, congrArg Prod.snd hm, fun v => ?_⟩
  obtain ⟨c, hc, hrun, htext⟩ := hfound v
  exact ⟨c, hc, hrun, htext m rfl⟩

end Rule

end WikiMarkup
