import WikiMarkup.Proofs.Inline.Scan

/-!
# Spans by the rules

What the rules of bold and italics find at the head of a line that is given as proper pieces. The
rules of the two delimiters are handled together.
-/

namespace WikiMarkup

open Peg

/-- Proper pieces up to a line end, none of which starts at an earlier line end. -/
structure OnLine (ps : List Piece) (tail : List Char) : Prop where
  proper : Piece.Proper ps
  clear : Rule.Clear (Piece.flat ps) tail
  lineEnd : (lineEnd? tail).isSome

namespace OnLine

variable {p : Piece} {ps : List Piece} {tail : List Char}

theorem of_cons (h : OnLine (p :: ps) tail) : OnLine ps tail where
  proper := h.proper.tail
  clear := (Rule.clear_append.mp h.clear).2
  lineEnd := h.lineEnd

/-- What follows a run on the line. -/
theorem stops (h : OnLine ps tail) (hps : Piece.startsRun ps = false) :
    Stops (Piece.flat ps ++ tail) := by
  cases ps with
  | nil => exact .inr h.lineEnd
  | cons p ps =>
    cases p with
    | delim d => exact stops_delim d _
    | run cs => cases hps

theorem isRun {cs : List Char} (h : OnLine (.run cs :: ps) tail) :
    Rule.IsRun cs (Piece.flat ps ++ tail) where
  plain := h.proper.2.1
  clear := (Rule.clear_append.mp h.clear).1
  stops := h.of_cons.stops h.proper.2.2.1

end OnLine

namespace Rule

variable {d : Delimiter} {ps : List Piece} {tail : List Char}

/-! ## The end of a span -/

/-- A span ends here, with its own delimiter or with the line. -/
def EndsSpan (d : Delimiter) (ps : List Piece) : Prop := ps = [] ∨ ps.head? = some (.delim d)

theorem isSome_read_endRule_onLine (h : OnLine ps tail) :
    (d.endRule.read (Piece.flat ps ++ tail)).isSome ↔ EndsSpan d ps := by
  rw [isSome_read_endRule, EndsSpan]
  cases ps with
  | nil => simp [h.lineEnd]
  | cons p ps =>
    cases p with
    | delim e => simp [Delimiter.char_injective.eq_iff, Delimiter.lineEnd?_cons]
    | run cs =>
      have hstops := h.isRun.not_stops h.proper.1
      rw [Piece.flat_run, List.append_assoc]
      simp only [List.cons_ne_nil, List.head?_cons, Option.some.injEq, reduceCtorEq, or_self,
        iff_false]
      intro hend
      exact hstops (hend.imp (fun hd => ⟨d, hd⟩) id)

/-- The pieces behind a span: its own delimiter belongs to it, any other does not. -/
def afterSpan (d : Delimiter) : List Piece → List Piece
  | .delim e :: ps => if e = d then ps else .delim e :: ps
  | ps => ps

theorem onLine_afterSpan (h : OnLine ps tail) : OnLine (afterSpan d ps) tail := by
  unfold afterSpan
  split
  · split
    · exact h.of_cons
    · exact h
  · exact h

theorem length_afterSpan_le (d : Delimiter) (ps : List Piece) :
    (afterSpan d ps).length ≤ ps.length := by
  unfold afterSpan
  split
  · split
    · exact Nat.le_succ _
    · exact Nat.le_refl _
  · exact Nat.le_refl _

theorem exists_read_endRule (h : OnLine ps tail) (hend : EndsSpan d ps) :
    ∃ r, d.endRule.read (Piece.flat ps ++ tail) = some r ∧
      r.rest = Piece.flat (afterSpan d ps) ++ tail := by
  rcases hend with rfl | hd
  · obtain ⟨m, hm⟩ := read_endRule_of_lineEnd d tail h.lineEnd
    exact ⟨_, hm, rfl⟩
  · obtain ⟨ps, rfl⟩ := List.head?_eq_some_iff.mp hd
    have hafter : afterSpan d (.delim d :: ps) = ps := if_pos rfl
    rw [hafter]
    exact ⟨_, read_endRule_self d (Piece.flat ps ++ tail), rfl⟩

theorem eq_delim_other_of_not_endsSpan (hps : Piece.startsRun ps = false) (h : ¬EndsSpan d ps) :
    ∃ after, ps = .delim d.other :: after := by
  cases ps with
  | nil => exact absurd (.inl rfl) h
  | cons p ps =>
    cases p with
    | run cs => cases hps
    | delim e =>
      obtain rfl := Delimiter.eq_other_of_ne fun he => h (.inr (congrArg _ (congrArg _ he)))
      exact ⟨ps, rfl⟩

/-! ## Guarded content -/

section Guarded

variable {guard e : MarkupExpr} {cs : List Char}

/-- An expression that is tried only where the guard does not match, under its node. -/
def guarded (guard e : MarkupExpr) : MarkupExpr :=
  .onMatch (.sequence [.notAhead guard, e]) (lift 1)

theorem read_guarded_of_guard (h : (guard.read read cs).isSome) :
    (guarded guard e).read read cs = none := by
  obtain ⟨r, hr⟩ := Option.isSome_iff_exists.mp h
  simp [guarded, Expr.read, Expr.readEach, hr]

theorem read_guarded_of_none (h : e.read read cs = none) :
    (guarded guard e).read read cs = none := by
  cases hguard : guard.read read cs <;> simp [guarded, Expr.read, Expr.readEach, hguard, h]

variable (guard e) in
theorem read_guarded {r : Reading Node} (hguard : guard.read read cs = none)
    (h : e.read read cs = some r) :
    ∃ m, (guarded guard e).read read cs = some ⟨m, r.front, r.rest⟩ ∧ m.node = r.found.node := by
  have hsequence : (Expr.sequence [.notAhead guard, e] : MarkupExpr).read read cs =
      some (.spanning ⟨[.empty, r.found], r.front, r.rest⟩) := by
    simp [Expr.read, Expr.readEach, hguard, h, Stretch.cons, Stretch.empty]
  rw [guarded, Expr.read, hsequence]
  exact ⟨_, rfl, rfl⟩

end Guarded

/-! ## Gathered content -/

section Gathered

variable {opening content closing : MarkupExpr} {make : List Node → Node} {cs : List Char}

/-- One or more rounds of content between an opening and a closing, under a node of their nodes. -/
def gathered (opening content closing : MarkupExpr) (make : List Node → Node) : MarkupExpr :=
  .onMatch (.sequence [opening, .oneOrMore content, closing]) (gather 1 make)

theorem progresses_gathered (h : Reader.Progresses (opening.read read)) :
    Reader.Progresses ((gathered opening content closing make).read read) :=
  (h.sequence _).onMatch _

theorem read_gathered_of_opening (h : opening.read read cs = none) :
    (gathered opening content closing make).read read cs = none := by
  simp [gathered, Expr.read, Expr.readEach, h]

theorem read_gathered_of_content {r : Reading Node} (h : opening.read read cs = some r)
    (hcontent : content.read read r.rest = none) :
    (gathered opening content closing make).read read cs = none := by
  simp [gathered, Expr.read, Expr.readEach, h, readOneOrMore_of_none hcontent]

variable {r first : Reading Node} (h : opening.read read cs = some r)
  (hfirst : content.read read r.rest = some first) (hne : first.front ≠ [])

include h hfirst hne

theorem read_gathered_of_closing
    (hclosing : closing.read read (readRounds (content.read read) r.rest).rest = none) :
    (gathered opening content closing make).read read cs = none := by
  have hrounds := readOneOrMore_of_some (exact_expr content) hfirst hne
  simp [gathered, Expr.read, Expr.readEach, h, hrounds, Reading.spanning, hclosing]

variable (opening content closing make) in
theorem read_gathered {last : Reading Node}
    (hclosing : closing.read read (readRounds (content.read read) r.rest).rest = some last) :
    ∃ found, (gathered opening content closing make).read read cs = some found ∧
      found.found.node = some (make (readRounds (content.read read) r.rest).nodes) ∧
      found.rest = last.rest := by
  have hrounds := readOneOrMore_of_some (exact_expr content) hfirst hne
  let rounds := readRounds (content.read read) r.rest
  have heach : Expr.readEach read [opening, .oneOrMore content, closing] cs =
      some (.cons r (.cons (.spanning rounds) (.cons last (.empty last.rest)))) := by
    simp only [Expr.read, Expr.readEach, h, hrounds, Option.bind_some, Option.map_some,
      Reading.spanning, hclosing, rounds]
  rw [gathered, Expr.read, Expr.read, heach]
  exact ⟨_, rfl, rfl, rfl⟩

end Gathered

/-! ## A span inside another -/

theorem read_nestedContentRule : d.nestedContentRule.read =
    (guarded (.rule nestedEnd) leaf).read read := by
  rw [read_eq, body_nestedContentRule]
  rfl

/-- The end of a nested span: the end of its own kind, or that of the outer span ahead. -/
def nestedClose (d : Delimiter) : MarkupExpr :=
  .firstOf [.rule d.endRule, .ahead (.rule d.other.endRule)]

theorem read_nestedClose (d : Delimiter) (cs : List Char) : (nestedClose d).read read cs =
    (d.endRule.read cs).or
      ((d.other.endRule.read cs).map fun r => ⟨{ r.found with consumed := 0 }, [], cs⟩) := by
  simp only [nestedClose, Expr.read, Expr.readFirst_cons, Expr.readFirst_nil, Option.or_none]

theorem read_nestedRule : d.nestedRule.read = (gathered (.rule d.delimRule)
    (.rule d.nestedContentRule) (nestedClose d) d.span).read read := by
  rw [read_eq, body_nestedRule]
  rfl

theorem progresses_nestedRule : d.nestedRule.read.Progresses := by
  rw [read_nestedRule]
  exact progresses_gathered (progresses_delimRule d)

theorem readsLeaves_nestedContentRule (d : Delimiter) (tail : List Char) :
    ReadsLeaves d.nestedContentRule.read tail := by
  intro run r hne hrun hr
  rw [read_nestedContentRule]
  apply read_guarded _ _ _ hr
  have hend := isSome_read_nestedEnd (run ++ tail)
  rw [← Option.not_isSome_iff_eq_none]
  intro h
  exact hrun.not_stops hne (hend.mp h)

theorem read_nestedContentRule_of_stops {cs : List Char} (h : Stops cs) :
    d.nestedContentRule.read cs = none := by
  rw [read_nestedContentRule]
  exact read_guarded_of_guard ((isSome_read_nestedEnd cs).mpr h)

theorem read_nestedRule_of_ne {cs : List Char} (h : cs.head? ≠ some d.char) :
    d.nestedRule.read cs = none := by
  rw [read_nestedRule]
  exact read_gathered_of_opening (read_delimRule_of_ne d cs h)

/-- A nested span needs a run to start with. -/
theorem read_nestedRule_eq_none (h : OnLine ps tail) (hps : Piece.startsRun ps = false) :
    d.nestedRule.read (Piece.flat (.delim d :: ps) ++ tail) = none := by
  rw [read_nestedRule]
  exact read_gathered_of_content (read_delimRule_self d _)
    (read_nestedContentRule_of_stops (h.stops hps))

theorem exists_read_nestedClose (h : OnLine ps tail) (hps : Piece.startsRun ps = false) :
    ∃ r, (nestedClose d).read read (Piece.flat ps ++ tail) = some r ∧
      r.rest = Piece.flat (afterSpan d ps) ++ tail := by
  rw [read_nestedClose]
  by_cases hend : EndsSpan d ps
  · obtain ⟨r, hr, hrest⟩ := exists_read_endRule h hend
    exact ⟨r, by rw [hr, Option.some_or], hrest⟩
  · have hnone : d.endRule.read (Piece.flat ps ++ tail) = none := by
      rw [← Option.not_isSome_iff_eq_none, isSome_read_endRule_onLine h]
      exact hend
    obtain ⟨ps, rfl⟩ := eq_delim_other_of_not_endsSpan hps hend
    rw [hnone, Option.none_or, Piece.flat_delim, List.cons_append, read_endRule_self]
    exact ⟨_, rfl, by simp [afterSpan]⟩

/-- A nested span consists of the leaves of one run. -/
theorem read_nestedRule_run {run : List Char} (h : OnLine (.run run :: ps) tail) :
    ∃ r, d.nestedRule.read (Piece.flat (.delim d :: .run run :: ps) ++ tail) = some r ∧
      r.found.node = some (d.span (leaves run)) ∧
      r.rest = Piece.flat (afterSpan d ps) ++ tail := by
  have hleaves := readsLeaves_nestedContentRule d (Piece.flat ps ++ tail)
  obtain ⟨first, hfirst, hne⟩ := hleaves.exists_read h.isRun h.proper.1
  obtain ⟨hnodes, hrest⟩ := hleaves.readRounds (exact_read _) h.isRun
  have hend := readRounds_of_none (read_nestedContentRule_of_stops (d := d) h.isRun.stops)
  rw [hend] at hnodes hrest
  obtain ⟨last, hlast, hlastRest⟩ := exists_read_nestedClose (d := d) h.of_cons h.proper.2.2.1
  have hclosing : (nestedClose d).read read
      (readRounds d.nestedContentRule.read (run ++ (Piece.flat ps ++ tail))).rest = some last := by
    rw [hrest]
    exact hlast
  have hgathered : ∃ found, d.nestedRule.read (d.char :: (run ++ (Piece.flat ps ++ tail))) =
      some found ∧ found.found.node = some (d.span
        (readRounds d.nestedContentRule.read (run ++ (Piece.flat ps ++ tail))).nodes) ∧
      found.rest = last.rest := by
    rw [read_nestedRule]
    exact read_gathered (.rule d.delimRule) (.rule d.nestedContentRule) (nestedClose d) d.span
      (read_delimRule_self d _) hfirst hne hclosing
  obtain ⟨found, hfound, hnode, hfoundRest⟩ := hgathered
  refine ⟨found, by simpa using hfound, ?_, hfoundRest.trans hlastRest⟩
  rw [hnode, hnodes]
  simp

end Rule

end WikiMarkup
