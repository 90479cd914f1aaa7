import WikiMarkup.Proofs.Inline.Piece

/-!
# One pass over a line

The inline markup of a line can be read in one pass over its pieces that remembers the open spans,
of which there are at most two, of different kinds. A delimiter opens a span unless it closes one;
the delimiter of the outer span closes the nested one as well, and so does the end of the line.

The pass itself never fails. `Spans.Openable` says of each delimiter that opens a span that
something follows which the span can start with, and `blocked_iff` finds the delimiter at which this
fails.
-/

namespace WikiMarkup

/-- The spans that are open, with the nodes gathered in each. A nested span has the delimiter that
the outer span does not have. -/
inductive Spans where
  | top (done : List Node)
  | outer (done : List Node) (d : Delimiter) (inner : List Node)
  | nested (done : List Node) (d : Delimiter) (inner innermost : List Node)

namespace Spans

/-- Append nodes to the innermost open span. -/
def append : Spans → List Node → Spans
  | .top done, ns => .top (done ++ ns)
  | .outer done d inner, ns => .outer done d (inner ++ ns)
  | .nested done d inner innermost, ns => .nested done d inner (innermost ++ ns)

/-- What a delimiter does: close its own span, with the one nested inside, or open one. -/
def toggle : Spans → Delimiter → Spans
  | .top done, e => .outer done e []
  | .outer done d inner, e =>
    if e = d then .top (done ++ [d.span inner]) else .nested done d inner []
  | .nested done d inner innermost, e =>
    if e = d then .top (done ++ [d.span (inner ++ [d.other.span innermost])])
    else .outer done d (inner ++ [d.other.span innermost])

def step (s : Spans) : Piece → Spans
  | .delim d => s.toggle d
  | .run cs => s.append (Rule.leaves cs)

def run (s : Spans) (ps : List Piece) : Spans := ps.foldl step s

/-- Close what is open. -/
def close : Spans → List Node
  | .top done => done
  | .outer done d inner => done ++ [d.span inner]
  | .nested done d inner innermost => done ++ [d.span (inner ++ [d.other.span innermost])]

@[simp] theorem run_nil (s : Spans) : s.run [] = s := rfl

@[simp] theorem run_cons (s : Spans) (p : Piece) (ps : List Piece) :
    s.run (p :: ps) = (s.step p).run ps := rfl

/-- Whether a delimiter before the given pieces can do what it does. Closing is always possible; an
outer span cannot start with its own delimiter, a nested span with none, and neither with the end of
the line. -/
def Opens : Spans → Delimiter → List Piece → Prop
  | .top _, e, after => after ≠ [] ∧ after.head? ≠ some (.delim e)
  | .outer _ d _, e, after => e = d ∨ Piece.startsRun after
  | .nested .., _, _ => True

/-- Every delimiter can do what it does when its turn comes. -/
def Openable : Spans → List Piece → Prop
  | _, [] => True
  | s, .run cs :: ps => (s.step (.run cs)).Openable ps
  | s, .delim d :: ps => s.Opens d ps ∧ (s.step (.delim d)).Openable ps

/-- The delimiters of the open spans, outermost first. -/
def pending : Spans → List Delimiter
  | .top _ => []
  | .outer _ d _ => [d]
  | .nested _ d _ _ => [d, d.other]

@[simp] theorem pending_append (s : Spans) (ns : List Node) :
    (s.append ns).pending = s.pending := by
  cases s <;> rfl

theorem pending_toggle_congr {s t : Spans} (h : s.pending = t.pending) (d : Delimiter) :
    (s.toggle d).pending = (t.toggle d).pending := by
  cases s <;> cases t <;> simp only [pending, List.cons.injEq, reduceCtorEq, and_true,
    and_false] at h
  · rfl
  · subst h
    simp only [toggle]
    split <;> rfl
  · obtain ⟨rfl, -⟩ := h
    simp only [toggle]
    split <;> rfl

theorem pending_step_congr {s t : Spans} (h : s.pending = t.pending) (p : Piece) :
    (s.step p).pending = (t.step p).pending := by
  cases p with
  | delim d => exact pending_toggle_congr h d
  | run cs => simpa only [step, pending_append] using h

theorem opens_congr {s t : Spans} (h : s.pending = t.pending) (d : Delimiter)
    (after : List Piece) : s.Opens d after ↔ t.Opens d after := by
  cases s <;> cases t <;> simp only [pending, List.cons.injEq, reduceCtorEq, and_true,
    and_false] at h
  · exact Iff.rfl
  · subst h
    exact Iff.rfl
  · exact Iff.rfl

/-- Which delimiters can open does not depend on the nodes gathered so far. -/
theorem openable_congr {s t : Spans} (h : s.pending = t.pending) (ps : List Piece) :
    s.Openable ps ↔ t.Openable ps := by
  induction ps generalizing s t with
  | nil => exact Iff.rfl
  | cons p ps ih =>
    have hrest := ih (pending_step_congr h p)
    cases p with
    | delim d => exact and_congr (opens_congr h d ps) hrest
    | run cs => exact hrest

@[simp] theorem openable_run (s : Spans) (cs : List Char) (ps : List Piece) :
    s.Openable (.run cs :: ps) ↔ s.Openable ps := openable_congr (pending_append s _) ps

theorem openable_push (s : Spans) (c : Char) (ps : List Piece) :
    s.Openable (Piece.push c ps) ↔ s.Openable ps := by
  unfold Piece.push
  split <;> simp

/-- What blocks a list of pieces is a delimiter in it. -/
theorem not_openable_iff {s : Spans} {ps : List Piece} : ¬s.Openable ps ↔
    ∃ before d after, ps = before ++ .delim d :: after ∧ ¬(s.run before).Opens d after := by
  induction ps generalizing s with
  | nil => simp [Openable]
  | cons p ps ih =>
    have hsplit : ¬s.Openable (p :: ps) ↔
        (∃ d, p = .delim d ∧ ¬s.Opens d ps) ∨ ¬(s.step p).Openable ps := by
      cases p with
      | delim d =>
        simp only [Openable, Classical.not_and_iff_not_or_not, Piece.delim.injEq, exists_eq_left']
      | run cs => simp only [reduceCtorEq, false_and, exists_false, false_or, Openable]
    rw [hsplit, ih]
    constructor
    · rintro (⟨d, rfl, hblock⟩ | ⟨before, d, after, rfl, hblock⟩)
      · exact ⟨[], d, ps, rfl, hblock⟩
      · exact ⟨p :: before, d, after, rfl, hblock⟩
    · rintro ⟨before, d, after, hps, hblock⟩
      cases before with
      | nil =>
        obtain ⟨rfl, rfl⟩ := List.cons.inj hps
        exact .inl ⟨d, rfl, hblock⟩
      | cons q before =>
        obtain ⟨rfl, rfl⟩ := List.cons.inj hps
        exact .inr ⟨before, d, after, rfl, hblock⟩

/-! ### Passing over pieces at once -/

/-- From these spans the pass over `ps` comes to the same as gathering the nodes `ns` and going on
with `ps'`. -/
structure Passes (s : Spans) (ps : List Piece) (ns : List Node) (ps' : List Piece) : Prop where
  close_run : (s.run ps).close = ((s.append ns).run ps').close
  openable : s.Openable ps ↔ s.Openable ps'

@[simp] theorem append_nil (s : Spans) : s.append [] = s := by
  cases s <;> simp [append]

@[simp] theorem append_append (s : Spans) (ns ns' : List Node) :
    (s.append ns).append ns' = s.append (ns ++ ns') := by
  cases s <;> simp [append]

namespace Passes

variable {s : Spans} {ps ps' ps'' : List Piece} {ns ns' : List Node}

theorem refl (s : Spans) (ps : List Piece) : s.Passes ps [] ps := ⟨by rw [append_nil], Iff.rfl⟩

theorem trans (h : s.Passes ps ns ps') (h' : (s.append ns).Passes ps' ns' ps'') :
    s.Passes ps (ns ++ ns') ps'' where
  close_run := by rw [h.close_run, h'.close_run, append_append]
  openable := by
    have hpending := pending_append s ns
    rw [h.openable, ← openable_congr hpending, h'.openable, openable_congr hpending]

theorem run (s : Spans) (cs : List Char) (ps : List Piece) :
    s.Passes (.run cs :: ps) (Rule.leaves cs) ps where
  close_run := rfl
  openable := openable_run s cs ps

end Passes

end Spans

/-- The nodes of a line by one pass over it. -/
def scan (line : List Char) : List Node := ((Spans.top []).run (Piece.cut line)).close

/-- Some outer opening delimiter comes right before the same delimiter or the end of the line, or
some nested opening delimiter right before any delimiter or the end of the line. -/
def Blocked (line : List Char) : Prop :=
  ∃ before d after, Piece.cut line = before ++ .delim d :: after ∧
    match (Spans.top []).run before with
    | .top _ => after = [] ∨ after.head? = some (.delim d)
    | .outer _ e _ => d ≠ e ∧ (after = [] ∨ ∃ e', after.head? = some (.delim e'))
    | .nested .. => False

/-- A line is blocked exactly if the pass meets a delimiter that cannot open its span. -/
theorem blocked_iff {line : List Char} :
    Blocked line ↔ ¬(Spans.top []).Openable (Piece.cut line) := by
  rw [Spans.not_openable_iff]
  unfold Blocked
  refine exists_congr fun before => exists_congr fun d => exists_congr fun after =>
    and_congr_right fun _ => ?_
  cases (Spans.top []).run before with
  | top done =>
    simp only [Spans.Opens, Classical.not_and_iff_not_or_not, Classical.not_not]
  | outer done e inner =>
    simp only [Spans.Opens]
    cases after with
    | nil => simp [Piece.startsRun]
    | cons p after => cases p <;> simp [Piece.startsRun]
  | nested done e inner innermost => simp [Spans.Opens]

end WikiMarkup
