import WikiMarkup.Proofs.Inline.Span

/-!
# Outer spans

The rules for bold and italics read a line as the pass over its pieces does. Each step of a
repetition corresponds to a stretch of pieces that the pass gathers at once, and a repetition gets
stuck before the end of its span only at a delimiter that cannot open another.
-/

namespace WikiMarkup

open Peg

namespace Rule

variable {d : Delimiter} {ps : List Piece} {tail : List Char}

/-! ## A repetition that follows the pass -/

/-- From pieces `ps` a round or several rounds of the reader leave `ps'`, and find the nodes that
the pass gathers in between from any spans with the property `Q`. -/
structure Advances (s : Reader Node) (Q : Spans → Prop) (tail : List Char) (ps : List Piece)
    (ns : List Node) (ps' : List Piece) : Prop where
  reads : ∃ first, s (Piece.flat ps ++ tail) = some first ∧ first.front ≠ []
  onLine : OnLine ps' tail
  length_lt : ps'.length < ps.length
  nodes : (readRounds s (Piece.flat ps ++ tail)).nodes =
    ns ++ (readRounds s (Piece.flat ps' ++ tail)).nodes
  rest : (readRounds s (Piece.flat ps ++ tail)).rest =
    (readRounds s (Piece.flat ps' ++ tail)).rest
  passes : ∀ t, Q t → t.Passes ps ns ps'

/-- The reader fails where it is stuck, and advances everywhere else. -/
def Follows (s : Reader Node) (Q : Spans → Prop) (Stuck : List Piece → Prop) (tail : List Char) :
    Prop :=
  ∀ ps, OnLine ps tail → (Stuck ps ∧ s (Piece.flat ps ++ tail) = none) ∨
    ∃ ns ps', Advances s Q tail ps ns ps'

/-- The whole repetition follows the pass up to pieces at which the reader is stuck. -/
theorem Follows.readRounds {s : Reader Node} {Q : Spans → Prop} {Stuck : List Piece → Prop}
    (h : Follows s Q Stuck tail) (hQ : ∀ t ns, Q t → Q (t.append ns)) {ps : List Piece}
    (hps : OnLine ps tail) :
    ∃ ps', OnLine ps' tail ∧ ps'.length ≤ ps.length ∧ Stuck ps' ∧
      (Peg.readRounds s (Piece.flat ps ++ tail)).rest = Piece.flat ps' ++ tail ∧
      ∀ t, Q t → t.Passes ps (Peg.readRounds s (Piece.flat ps ++ tail)).nodes ps' := by
  rcases h ps hps with ⟨hstuck, hnone⟩ | ⟨ns, ps₁, hstep⟩
  · rw [readRounds_of_none hnone]
    exact ⟨ps, hps, Nat.le_refl _, hstuck, rfl, fun t _ => .refl t ps⟩
  · have hlt := hstep.length_lt
    obtain ⟨ps', hps', hle, hstuck, hrest, hpasses⟩ := Follows.readRounds h hQ hstep.onLine
    refine ⟨ps', hps', by omega, hstuck, hstep.rest.trans hrest, fun t ht => ?_⟩
    rw [hstep.nodes]
    exact (hstep.passes t ht).trans (hpasses _ (hQ t ns ht))
termination_by ps.length

/-- Over a run the rounds of a reader of leaves advance as the pass does. -/
theorem ReadsLeaves.advances {s : Reader Node} (hs : s.Exact) {run : List Char}
    (h : ReadsLeaves s (Piece.flat ps ++ tail)) (hps : OnLine (.run run :: ps) tail)
    (Q : Spans → Prop) : Advances s Q tail (.run run :: ps) (leaves run) ps := by
  obtain ⟨hnodes, hrest⟩ := h.readRounds hs hps.isRun
  have hflat : Piece.flat (.run run :: ps) ++ tail = run ++ (Piece.flat ps ++ tail) := by simp
  refine ⟨?_, hps.of_cons, Nat.lt_succ_self _, ?_, ?_, fun t _ => .run t run ps⟩
  · rw [hflat]
    exact h.exists_read hps.isRun hps.proper.1
  · rw [hflat]
    exact hnodes
  · rw [hflat]
    exact hrest

/-- One round that finds a node is an advance. -/
theorem Advances.of_read {s : Reader Node} (hs : s.Exact) {Q : Spans → Prop} {r : Reading Node}
    {n : Node} {ps' : List Piece} (hr : s (Piece.flat ps ++ tail) = some r) (hne : r.front ≠ [])
    (hnode : r.found.node = some n) (hrest : r.rest = Piece.flat ps' ++ tail)
    (hps' : OnLine ps' tail) (hlt : ps'.length < ps.length)
    (hpasses : ∀ t, Q t → t.Passes ps [n] ps') : Advances s Q tail ps [n] ps' := by
  have hrounds := readRounds_of_some hs hr hne
  refine ⟨⟨r, hr, hne⟩, hps', hlt, ?_, ?_, hpasses⟩
  · rw [hrounds, Stretch.nodes_cons, hnode, hrest]
    rfl
  · rw [hrounds, Stretch.rest_cons, hrest]

/-! ## Content of an outer span -/

/-- Where the content of an outer span stops: where the span ends, and at a delimiter that cannot
open a nested span. -/
def OuterStuck (d : Delimiter) (ps : List Piece) : Prop :=
  EndsSpan d ps ∨ ∃ after, ps = .delim d.other :: after ∧ Piece.startsRun after = false

theorem read_contentRule : d.contentRule.read = (guarded (.rule d.endRule)
    (.firstOf [.rule .link, .rule d.other.nestedRule, .rule .text])).read read := by
  rw [read_eq, body_contentRule]
  rfl

theorem read_content_choice (d : Delimiter) (cs : List Char) :
    (Expr.firstOf [.rule .link, .rule d.other.nestedRule, .rule .text] : MarkupExpr).read read cs =
      (link.read cs).or ((d.other.nestedRule.read cs).or (text.read cs)) := by
  simp only [Expr.read, Expr.readFirst_cons, Expr.readFirst_nil, Option.or_none]

theorem readsLeaves_contentRule (d : Delimiter) (tail : List Char) :
    ReadsLeaves d.contentRule.read tail := by
  intro run r hne hrun hr
  have hstops := hrun.not_stops hne
  rw [read_contentRule]
  apply read_guarded
  · have hend := isSome_read_endRule d (run ++ tail)
    rw [← Option.not_isSome_iff_eq_none]
    intro h
    exact hstops ((hend.mp h).imp (fun hd => ⟨d, hd⟩) id)
  · have hnested : d.other.nestedRule.read (run ++ tail) = none :=
      read_nestedRule_of_ne fun hd => hstops (.inl ⟨_, hd⟩)
    rw [read_content_choice, hnested, Option.none_or, ← read_leaf]
    exact hr

/-- At a delimiter of the other kind the content of a span is a nested span. -/
theorem read_contentRule_delim (h : OnLine (.delim d.other :: ps) tail) :
    (Piece.startsRun ps = false →
      d.contentRule.read (Piece.flat (.delim d.other :: ps) ++ tail) = none) ∧
    ∀ run ps', ps = .run run :: ps' →
      ∃ r, d.contentRule.read (Piece.flat (.delim d.other :: ps) ++ tail) = some r ∧
        r.front ≠ [] ∧ r.found.node = some (d.other.span (leaves run)) ∧
        r.rest = Piece.flat (afterSpan d.other ps') ++ tail := by
  have hstops : Stops (Piece.flat (.delim d.other :: ps) ++ tail) := stops_delim d.other _
  have hchoice := read_content_choice d (Piece.flat (.delim d.other :: ps) ++ tail)
  rw [read_link_of_stops hstops, read_text_of_stops hstops, Option.none_or, Option.or_none]
    at hchoice
  rw [read_contentRule]
  constructor
  · intro hps
    apply read_guarded_of_none
    rw [hchoice]
    exact read_nestedRule_eq_none h.of_cons hps
  · rintro run ps' rfl
    obtain ⟨r, hr, hnode, hrest⟩ := read_nestedRule_run (d := d.other) h.of_cons
    have hne := progresses_nestedRule hr
    rw [hr] at hchoice
    have hguard : d.endRule.read (Piece.flat (.delim d.other :: .run run :: ps') ++ tail) = none :=
      read_endRule_eq_none d _ (by simp [Delimiter.char_injective.eq_iff])
        (d.other.lineEnd?_cons _)
    obtain ⟨m, hm, hmnode⟩ := read_guarded (.rule d.endRule) _ hguard hchoice
    exact ⟨_, hm, hne, hmnode.trans hnode, hrest⟩

/-- From a nested span the pass goes on as from the outer span with the nested one closed, if it is
the turn of a delimiter or the line ends. -/
theorem run_nested (done : List Node) (d : Delimiter) (inner innermost : List Node)
    (hps : Piece.startsRun ps = false) :
    ((Spans.nested done d inner innermost).run ps).close =
        ((Spans.outer done d (inner ++ [d.other.span innermost])).run
          (afterSpan d.other ps)).close ∧
      ((Spans.nested done d inner innermost).Openable ps ↔
        (Spans.outer done d inner).Openable (afterSpan d.other ps)) := by
  cases ps with
  | nil => exact ⟨rfl, Iff.rfl⟩
  | cons p ps =>
    cases p with
    | run cs => cases hps
    | delim e =>
      by_cases he : e = d
      · subst he
        have hclose : afterSpan e.other (.delim e :: ps) = .delim e :: ps :=
          if_neg e.ne_other
        rw [hclose]
        constructor
        · simp [Spans.step, Spans.toggle]
        · simp only [Spans.Openable, Spans.Opens, true_and, true_or]
          exact Spans.openable_congr (by simp [Spans.step, Spans.toggle, Spans.pending]) ps
      · obtain rfl := Delimiter.eq_other_of_ne he
        have hclose : afterSpan d.other (.delim d.other :: ps) = ps := if_pos rfl
        rw [hclose]
        constructor
        · simp [Spans.step, Spans.toggle]
        · simp only [Spans.Openable, Spans.Opens, true_and]
          exact Spans.openable_congr (by simp [Spans.step, Spans.toggle, Spans.pending]) ps

/-- The pass gathers a nested span as one node, whichever way it ends. -/
theorem passes_nested {t : Spans} (ht : t.pending = [d]) {run : List Char}
    (hps : Piece.startsRun ps = false) :
    t.Passes (.delim d.other :: .run run :: ps) [d.other.span (leaves run)]
      (afterSpan d.other ps) := by
  cases t with
  | top done => cases ht
  | nested done e inner innermost => simp [Spans.pending] at ht
  | outer done e inner =>
    obtain rfl : e = d := by simpa [Spans.pending] using ht
    obtain ⟨hclose, hopenable⟩ := run_nested done e inner (leaves run) hps
    have hnested : (Spans.outer done e inner).step (.delim e.other) = .nested done e inner [] := by
      simp [Spans.step, Spans.toggle]
    have hrun : (Spans.nested done e inner []).step (.run run) =
        .nested done e inner (leaves run) := rfl
    refine ⟨?_, ?_⟩
    · rw [Spans.run_cons, Spans.run_cons, hnested, hrun]
      exact hclose
    · rw [Spans.Openable, Spans.Openable, hnested, hrun, ← hopenable]
      exact and_iff_right (.inr rfl)

/-- The content of a span does not go on where the span ends. -/
theorem read_contentRule_of_endsSpan (h : OnLine ps tail) (hend : EndsSpan d ps) :
    d.contentRule.read (Piece.flat ps ++ tail) = none := by
  rw [read_contentRule]
  apply read_guarded_of_guard
  exact (isSome_read_endRule_onLine h).mpr hend

/-- The content of an outer span follows the pass. -/
theorem follows_contentRule (d : Delimiter) (tail : List Char) :
    Follows d.contentRule.read (fun t => t.pending = [d]) (OuterStuck d) tail := by
  intro ps hps
  by_cases hend : EndsSpan d ps
  · exact .inl ⟨.inl hend, read_contentRule_of_endsSpan hps hend⟩
  · cases ps with
    | nil => exact absurd (.inl rfl) hend
    | cons p ps =>
      cases p with
      | run run =>
        exact .inr ⟨_, _, (readsLeaves_contentRule d _).advances (exact_read _) hps _⟩
      | delim e =>
        obtain ⟨_, hcons⟩ := eq_delim_other_of_not_endsSpan rfl hend
        obtain ⟨rfl, rfl⟩ : e = d.other ∧ ps = _ := by simpa using hcons
        obtain ⟨hnone, hsome⟩ := read_contentRule_delim hps
        cases hstart : Piece.startsRun ps with
        | false => exact .inl ⟨.inr ⟨ps, rfl, hstart⟩, hnone hstart⟩
        | true =>
          obtain ⟨run, rest, rfl⟩ := Piece.startsRun_iff.mp hstart
          obtain ⟨r, hr, hne, hnode, hrest⟩ := hsome run rest rfl
          have hlt := length_afterSpan_le d.other rest
          refine .inr ⟨_, _, .of_read (exact_read _) hr hne hnode hrest
            (onLine_afterSpan hps.of_cons.of_cons) (by simp; omega) fun t ht => ?_⟩
          exact passes_nested ht hps.of_cons.proper.2.2.1

/-! ## Outer spans -/

theorem read_spanRule : d.spanRule.read =
    (gathered (.rule d.delimRule) (.rule d.contentRule) (.rule d.endRule) d.span).read read := by
  rw [read_eq, body_spanRule]
  rfl

theorem progresses_spanRule : d.spanRule.read.Progresses := by
  rw [read_spanRule]
  exact progresses_gathered (progresses_delimRule d)

/-- Where the outer span ends the pass goes on as from the top, with the span closed. -/
theorem run_outer (done : List Node) (inner : List Node) (h : EndsSpan d ps) :
    ((Spans.outer done d inner).run ps).close =
        ((Spans.top (done ++ [d.span inner])).run (afterSpan d ps)).close ∧
      ((Spans.outer done d inner).Openable ps ↔ (Spans.top done).Openable (afterSpan d ps)) := by
  rcases h with rfl | hd
  · exact ⟨rfl, Iff.rfl⟩
  · obtain ⟨ps, rfl⟩ := List.head?_eq_some_iff.mp hd
    have hafter : afterSpan d (.delim d :: ps) = ps := if_pos rfl
    rw [hafter]
    constructor
    · simp [Spans.step, Spans.toggle]
    · simp only [Spans.Openable, Spans.Opens, true_or, true_and]
      exact Spans.openable_congr (by simp [Spans.step, Spans.toggle, Spans.pending]) ps

/-- A delimiter at which the content of an outer span stops, and which does not end the span, cannot
open a nested one. -/
theorem not_openable_of_stuck {t : Spans} (ht : t.pending = [d]) (h : OuterStuck d ps)
    (hend : ¬EndsSpan d ps) : ¬t.Openable ps := by
  obtain ⟨after, rfl, hafter⟩ := h.resolve_left hend
  cases t with
  | top done => cases ht
  | nested done e inner innermost => simp [Spans.pending] at ht
  | outer done e inner =>
    obtain rfl : e = d := by simpa [Spans.pending] using ht
    rintro ⟨hopens, -⟩
    rcases hopens with he | hrun
    · exact e.other_ne he
    · rw [hafter] at hrun
      cases hrun

theorem opens_top_iff (done : List Node) : (Spans.top done).Opens d ps ↔ ¬EndsSpan d ps := by
  simp only [Spans.Opens, EndsSpan, not_or, ne_eq]

/-- At a delimiter the rule of its span finds what the pass gathers at once, and fails exactly if
some delimiter cannot open its span. -/
theorem read_spanRule_delim (h : OnLine (.delim d :: ps) tail) :
    (d.spanRule.read (Piece.flat (.delim d :: ps) ++ tail) = none ∧
      ∀ done, ¬(Spans.top done).Openable (.delim d :: ps)) ∨
    ∃ r n ps', d.spanRule.read (Piece.flat (.delim d :: ps) ++ tail) = some r ∧
      r.found.node = some n ∧ r.rest = Piece.flat ps' ++ tail ∧ OnLine ps' tail ∧
      ps'.length ≤ ps.length ∧ ∀ done, (Spans.top done).Passes (.delim d :: ps) [n] ps' := by
  have hfollows := follows_contentRule d tail
  have hopening := read_delimRule_self d (Piece.flat ps ++ tail)
  have hopen (done : List Node) : (Spans.top done).step (.delim d) = .outer done d [] := rfl
  rw [read_spanRule]
  rcases hfollows ps h.of_cons with ⟨hstuck, hnone⟩ | ⟨ns, ps₁, hadvance⟩
  · -- The span has no content.
    refine .inl ⟨read_gathered_of_content hopening hnone, fun done hopenable => ?_⟩
    rw [Spans.Openable, opens_top_iff, hopen] at hopenable
    exact not_openable_of_stuck rfl hstuck hopenable.1 hopenable.2
  · obtain ⟨first, hfirst, hne⟩ := hadvance.reads
    obtain ⟨ps', hps', hle, hstuck, hrest, hpasses⟩ := hfollows.readRounds
      (fun t ns ht => (Spans.pending_append t ns).trans ht) h.of_cons
    have hnot : ¬EndsSpan d ps := by
      intro hend
      rw [read_contentRule_of_endsSpan h.of_cons hend] at hfirst
      cases hfirst
    have hpass (done : List Node) := hpasses (.outer done d []) rfl
    have hopenable (done : List Node) : (Spans.top done).Openable (.delim d :: ps) ↔
        (Spans.outer done d []).Openable ps' := by
      rw [Spans.Openable, opens_top_iff, hopen, (hpass done).openable]
      exact and_iff_right hnot
    by_cases hend : EndsSpan d ps'
    · obtain ⟨last, hlast, hlastRest⟩ := exists_read_endRule hps' hend
      rw [← hrest] at hlast
      obtain ⟨r, hr, hnode, hrRest⟩ := read_gathered (.rule d.delimRule) (.rule d.contentRule)
        (.rule d.endRule) d.span hopening hfirst hne hlast
      have hafter := length_afterSpan_le d ps'
      refine .inr ⟨r, _, afterSpan d ps', hr, hnode, hrRest.trans hlastRest,
        onLine_afterSpan hps', by omega, fun done => ⟨?_, ?_⟩⟩
      · rw [Spans.run_cons, hopen, (hpass done).close_run]
        exact (run_outer done _ hend).1
      · rw [hopenable, (run_outer done [] hend).2]
    · -- The content ends at a delimiter that cannot open a nested span.
      have hlast : d.endRule.read (Piece.flat ps' ++ tail) = none := by
        rw [← Option.not_isSome_iff_eq_none, isSome_read_endRule_onLine hps']
        exact hend
      rw [← hrest] at hlast
      refine .inl ⟨read_gathered_of_closing hopening hfirst hne hlast, fun done => ?_⟩
      rw [hopenable]
      exact not_openable_of_stuck rfl hstuck hend

end Rule

end WikiMarkup
