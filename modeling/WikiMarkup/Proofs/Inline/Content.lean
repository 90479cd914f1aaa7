import WikiMarkup.Proofs.Inline.Outer

/-!
# Inline content

From the start of a line, inline content is read again and again until the line ends or a delimiter
cannot open its span. What it finds then is what one pass over the line finds.
-/

namespace WikiMarkup

open Peg

/-- The characters of a line and the text from its line end on. -/
structure IsLine (line tail : List Char) : Prop where
  clear : Rule.Clear line tail
  lineEnd : (lineEnd? tail).isSome

namespace IsLine

variable {line tail : List Char}

theorem onLine (h : IsLine line tail) : OnLine (Piece.cut line) tail where
  proper := Piece.proper_cut line
  clear := by
    rw [Piece.flat_cut]
    exact h.clear
  lineEnd := h.lineEnd

/-- A line without line feeds does not end in a carriage return that belongs to the line end. -/
theorem of_not_mem (hlf : '\n' ∉ line) (hcr : line.getLast? = some '\r' → tail.head? ≠ some '\n')
    (htail : (lineEnd? tail).isSome) : IsLine line tail where
  clear := Rule.clear_of_not_mem hlf hcr
  lineEnd := htail

end IsLine

/-- Where a line goes on there is still a line. -/
theorem IsLine.of_append {front line tail : List Char} (h : IsLine (front ++ line) tail) :
    IsLine line tail where
  clear := (Rule.clear_append.mp h.clear).2
  lineEnd := h.lineEnd

section Cut

variable {line cs : List Char} (h : '\n' ∉ line) (hcs : .run cs ∈ Piece.cut line)

include h hcs

theorem not_mem_of_run_mem_cut : '\n' ∉ cs := by
  intro hmem
  have hflat := Piece.mem_flat.mpr ⟨_, hcs, hmem⟩
  rw [Piece.flat_cut] at hflat
  exact h hflat

/-- The runs of a line are stretches without delimiters, also by themselves. -/
theorem isRun_of_run_mem_cut : Rule.IsRun cs [] where
  plain := (Piece.proper_cut line).plain_of_mem hcs
  clear := (IsLine.of_not_mem (not_mem_of_run_mem_cut h hcs) (fun _ => by simp) rfl).clear
  stops := .inr rfl

end Cut

namespace Rule

variable {d : Delimiter} {ps : List Piece} {line tail : List Char}

theorem read_spanRule_of_ne {cs : List Char} (h : cs.head? ≠ some d.char) :
    d.spanRule.read cs = none := by
  rw [read_spanRule]
  exact read_gathered_of_opening (read_delimRule_of_ne d cs h)

theorem read_inlineContent (cs : List Char) : inlineContent.read cs =
    (Delimiter.star.spanRule.read cs).or ((Delimiter.slash.spanRule.read cs).or
      ((link.read cs).or (text.read cs))) := by
  have hbody : inlineContent.read = (Expr.firstOf [.rule Delimiter.star.spanRule,
      .rule Delimiter.slash.spanRule, .rule .link, .rule .text] : MarkupExpr).read read :=
    read_eq inlineContent
  rw [hbody]
  simp only [Expr.read, Expr.readFirst_cons, Expr.readFirst_nil, Option.or_none]

/-- Inline content that starts with a delimiter is a span. -/
theorem read_inlineContent_delim (d : Delimiter) (cs : List Char) :
    inlineContent.read (d.char :: cs) = d.spanRule.read (d.char :: cs) := by
  have hstops := stops_delim d cs
  have hother : d.other.spanRule.read (d.char :: cs) = none :=
    read_spanRule_of_ne (by simp [Delimiter.char_injective.eq_iff])
  rw [read_inlineContent, read_link_of_stops hstops, read_text_of_stops hstops, Option.none_or,
    Option.or_none]
  cases d with
  | star => exact (congrArg _ hother).trans (Option.or_none)
  | slash => exact (congrArg (fun r => Option.or r _) hother).trans (Option.none_or)

theorem read_inlineContent_of_not_delim {cs : List Char}
    (h : ∀ d : Delimiter, cs.head? ≠ some d.char) :
    inlineContent.read cs = leaf.read read cs := by
  rw [read_inlineContent, read_spanRule_of_ne (h .star), read_spanRule_of_ne (h .slash), read_leaf]
  rfl

theorem readsLeaves_inlineContent (tail : List Char) : ReadsLeaves inlineContent.read tail := by
  intro run r hne hrun hr
  have hstops := hrun.not_stops hne
  rw [read_inlineContent_of_not_delim fun d hd => hstops (.inl ⟨d, hd⟩)]
  exact ⟨r.found, hr, rfl⟩

theorem progresses_inlineContent : inlineContent.read.Progresses := by
  intro cs r hr
  rw [read_inlineContent] at hr
  rcases Option.or_eq_some_iff.mp hr with hstar | ⟨-, hr⟩
  · exact progresses_spanRule hstar
  rcases Option.or_eq_some_iff.mp hr with hslash | ⟨-, hr⟩
  · exact progresses_spanRule hslash
  rcases Option.or_eq_some_iff.mp hr with hlink | ⟨-, htext⟩
  · exact progresses_link hlink
  · exact progresses_text htext

theorem read_inlineContent_of_lineEnd (h : (lineEnd? tail).isSome) :
    inlineContent.read tail = none := by
  have hhead := head?_of_lineEnd? h
  rw [read_inlineContent_of_not_delim]
  · exact read_leaf_of_stops (.inr h)
  · rintro (_ | _) <;> rcases hhead with hhead | hhead | hhead <;> rw [hhead] <;> decide

/-- Where inline content stops: at the end of the line, and at a delimiter from which the pass
cannot go on. -/
def TopStuck (ps : List Piece) : Prop :=
  ps = [] ∨ (∃ d after, ps = .delim d :: after) ∧ ∀ done, ¬(Spans.top done).Openable ps

/-- Inline content follows the pass. -/
theorem follows_inlineContent (tail : List Char) :
    Follows inlineContent.read (fun t => t.pending = []) TopStuck tail := by
  intro ps hps
  cases ps with
  | nil =>
    exact .inl ⟨.inl rfl, read_inlineContent_of_lineEnd hps.lineEnd⟩
  | cons p ps =>
    cases p with
    | run run => exact .inr ⟨_, _, (readsLeaves_inlineContent _).advances (exact_read _) hps _⟩
    | delim d =>
      have hspan : inlineContent.read (Piece.flat (.delim d :: ps) ++ tail) =
          d.spanRule.read (Piece.flat (.delim d :: ps) ++ tail) :=
        read_inlineContent_delim d _
      rcases read_spanRule_delim hps with ⟨hnone, hblocked⟩ |
        ⟨r, n, ps', hr, hnode, hrest, hps', hle, hpasses⟩
      · exact .inl ⟨.inr ⟨⟨d, ps, rfl⟩, hblocked⟩, hspan.trans hnone⟩
      · refine .inr ⟨_, ps', .of_read (exact_read _) (hspan.trans hr) (progresses_spanRule hr) hnode
          hrest hps' (Nat.lt_succ_of_le hle) fun t ht => ?_⟩
        cases t with
        | top done => exact hpasses done
        | outer done e inner => cases ht
        | nested done e inner innermost => cases ht

/-- Inline content reads a line to its end, with the nodes of the pass, unless a delimiter cannot
open its span; then it stops at a delimiter. -/
theorem readRounds_inlineContent (h : IsLine line tail) :
    (¬Blocked line ∧ (readRounds inlineContent.read (line ++ tail)).nodes = scan line ∧
      (readRounds inlineContent.read (line ++ tail)).rest = tail) ∨
    (Blocked line ∧ ∃ d after,
      (readRounds inlineContent.read (line ++ tail)).rest = Delimiter.char d :: after) := by
  obtain ⟨ps', -, -, hstuck, hrest, hpasses⟩ := (follows_inlineContent tail).readRounds
    (fun t ns ht => (Spans.pending_append t ns).trans ht) h.onLine
  rw [Piece.flat_cut] at hrest hpasses
  obtain ⟨hclose, hopenable⟩ := hpasses (.top []) rfl
  rw [blocked_iff, hopenable]
  rcases hstuck with rfl | ⟨⟨d, after, rfl⟩, hblocked⟩
  · refine .inl ⟨not_not_intro trivial, ?_, hrest⟩
    exact (hclose.trans (List.nil_append _)).symm
  · exact .inr ⟨hblocked [], d, _, hrest⟩

end Rule

end WikiMarkup
