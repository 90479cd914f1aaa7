import WikiMarkup.Proofs.Inline.Content
import WikiMarkup.Proofs.Node.Markup

/-!
# Lines written back

The nodes of a line, written as markup, are the line again with the delimiters put in that it left
out: where a span ends with the line or with the span around it. The pass over this line does the
same as over the original.
-/

namespace WikiMarkup

open Node

@[simp] theorem markup_span (d : Delimiter) (ns : List Node) :
    (d.span ns).markup = d.char :: (markups ns ++ [d.char]) := by
  cases d <;> rfl

namespace Spans

/-- The delimiter to put in before a delimiter that closes two spans. -/
def missing : Spans → Delimiter → List Piece
  | .nested _ d _ _, e => if e = d then [.delim d.other] else []
  | _, _ => []

/-- The pieces with the closing delimiters that are left out. -/
def written : Spans → List Piece → List Piece
  | .top _, [] => []
  | .outer _ d _, [] => [.delim d]
  | .nested _ d _ _, [] => [.delim d.other, .delim d]
  | s, .run cs :: ps => .run cs :: (s.step (.run cs)).written ps
  | s, .delim e :: ps => s.missing e ++ .delim e :: (s.step (.delim e)).written ps

/-- The markup of what is gathered so far, with the open spans left open. -/
def opened : Spans → List Char
  | .top done => markups done
  | .outer done d inner => markups done ++ d.char :: markups inner
  | .nested done d inner innermost =>
    markups done ++ d.char :: (markups inner ++ d.other.char :: markups innermost)

theorem written_nil (s : Spans) : s.written [] =
    match s with
    | .top _ => []
    | .outer _ d _ => [.delim d]
    | .nested _ d _ _ => [.delim d.other, .delim d] := by
  cases s <;> rfl

@[simp] theorem written_run (s : Spans) (cs : List Char) (ps : List Piece) :
    s.written (.run cs :: ps) = .run cs :: (s.step (.run cs)).written ps := by
  cases s <;> rfl

@[simp] theorem written_delim (s : Spans) (e : Delimiter) (ps : List Piece) :
    s.written (.delim e :: ps) = s.missing e ++ .delim e :: (s.step (.delim e)).written ps := by
  cases s <;> rfl

/-! ### What is written -/

theorem opened_append (s : Spans) (ns : List Node) :
    (s.append ns).opened = s.opened ++ markups ns := by
  cases s <;> simp [append, opened]

theorem opened_toggle (s : Spans) (e : Delimiter) :
    (s.toggle e).opened = s.opened ++ Piece.flat (s.missing e) ++ [e.char] := by
  cases s with
  | top done => simp [toggle, opened, missing, markups]
  | outer done d inner =>
    by_cases he : e = d
    · subst he
      simp [toggle, opened, missing]
    · obtain rfl := Delimiter.eq_other_of_ne he
      simp [toggle, opened, missing, markups]
  | nested done d inner innermost =>
    by_cases he : e = d
    · subst he
      simp [toggle, opened, missing]
    · obtain rfl := Delimiter.eq_other_of_ne he
      simp [toggle, opened, missing]

theorem markups_close (s : Spans) : markups s.close = s.opened ++ Piece.flat (s.written []) := by
  cases s <;> simp [close, opened, written_nil]

/-- If the leaves of the runs are written as the runs, the nodes of the pass are written as the
pieces with the missing delimiters. -/
theorem markups_close_run (s : Spans) {ps : List Piece}
    (h : ∀ cs, .run cs ∈ ps → markups (Rule.leaves cs) = cs) :
    markups (s.run ps).close = s.opened ++ Piece.flat (s.written ps) := by
  induction ps generalizing s with
  | nil => exact markups_close s
  | cons p ps ih =>
    have hrest := ih (s.step p) fun cs hcs => h cs (List.mem_cons_of_mem p hcs)
    rw [run_cons, hrest]
    cases p with
    | run cs =>
      rw [written_run, Piece.flat_run, step, opened_append, h cs (List.mem_cons_self ..),
        List.append_assoc]
    | delim e =>
      rw [written_delim, step, opened_toggle]
      simp

/-! ### The pass over what is written -/

theorem toggle_run_missing (s : Spans) (e : Delimiter) :
    (s.run (s.missing e)).toggle e = s.toggle e := by
  cases s with
  | top done => rfl
  | outer done d inner => rfl
  | nested done d inner innermost =>
    by_cases he : e = d
    · subst he
      simp [missing, step, toggle]
    · simp [missing, he]

theorem close_run_written_nil (s : Spans) : (s.run (s.written [])).close = s.close := by
  cases s <;> simp [written_nil, step, toggle, close]

/-- The pass over the written pieces gathers the same nodes. -/
theorem close_run_written (s : Spans) (ps : List Piece) :
    (s.run (s.written ps)).close = (s.run ps).close := by
  induction ps generalizing s with
  | nil => exact close_run_written_nil s
  | cons p ps ih =>
    cases p with
    | run cs =>
      rw [written_run, run_cons, run_cons]
      exact ih _
    | delim e =>
      have happend : (s.run (s.missing e ++ .delim e :: (s.step (.delim e)).written ps)) =
          ((s.run (s.missing e)).toggle e).run ((s.step (.delim e)).written ps) :=
        List.foldl_append
      rw [written_delim, happend, toggle_run_missing, run_cons]
      exact ih _

theorem startsRun_written (s : Spans) (ps : List Piece) :
    Piece.startsRun (s.written ps) = Piece.startsRun ps := by
  cases ps with
  | nil => cases s <;> rfl
  | cons p ps =>
    cases p with
    | run cs => rw [written_run]; rfl
    | delim e =>
      rw [written_delim]
      cases s with
      | nested done d inner innermost =>
        by_cases he : e = d
        · simp [missing, he, Piece.startsRun]
        · simp [missing, he, Piece.startsRun]
      | _ => rfl

/-- A delimiter that could open its span still can. -/
theorem opens_written {s : Spans} {e : Delimiter} {ps : List Piece} (h : s.Opens e ps) :
    s.Opens e ((s.toggle e).written ps) := by
  cases s with
  | top done =>
    obtain ⟨hne, hhead⟩ := h
    obtain ⟨p, ps, rfl⟩ := List.exists_cons_of_ne_nil hne
    cases p with
    | run cs => exact ⟨by simp, by simp⟩
    | delim f => exact ⟨by simp [toggle, missing], by simpa [toggle, missing] using hhead⟩
  | outer done d inner =>
    rcases h with he | hrun
    · exact .inl he
    · exact .inr (by rw [startsRun_written]; exact hrun)
  | nested done d inner innermost => trivial

/-- A delimiter that is put in can always close its span. -/
theorem openable_missing (s : Spans) (e : Delimiter) (ps : List Piece) :
    s.Openable (s.missing e ++ .delim e :: ps) ↔ s.Openable (.delim e :: ps) := by
  cases s with
  | top done => exact Iff.rfl
  | outer done d inner => exact Iff.rfl
  | nested done d inner innermost =>
    by_cases he : e = d
    · subst he
      simp [missing, Openable, Opens, step, toggle]
    · simp [missing, he]

theorem openable_written {s : Spans} {ps : List Piece} (h : s.Openable ps) :
    s.Openable (s.written ps) := by
  induction ps generalizing s with
  | nil =>
    rw [written_nil]
    cases s with
    | top done => trivial
    | outer done d inner => exact ⟨.inl rfl, trivial⟩
    | nested done d inner innermost => simp [Openable, Opens, step, toggle]
  | cons p ps ih =>
    cases p with
    | run cs =>
      rw [written_run]
      exact ih h
    | delim e =>
      obtain ⟨hopens, hrest⟩ := h
      rw [written_delim, openable_missing]
      exact ⟨opens_written hopens, ih hrest⟩

theorem proper_written (s : Spans) {ps : List Piece} (h : Piece.Proper ps) :
    Piece.Proper (s.written ps) := by
  induction ps generalizing s with
  | nil => cases s <;> trivial
  | cons p ps ih =>
    have hrest := ih (s.step p) h.tail
    cases p with
    | run cs =>
      obtain ⟨hne, hplain, hnext, -⟩ := h
      rw [written_run]
      exact ⟨hne, hplain, by rw [startsRun_written, hnext], hrest⟩
    | delim e =>
      rw [written_delim]
      cases s with
      | top done => exact hrest
      | outer done d inner => exact hrest
      | nested done d inner innermost =>
        by_cases he : e = d
        · rw [missing, if_pos he]
          exact hrest
        · rw [missing, if_neg he]
          exact hrest

theorem run_mem_of_mem_written {s : Spans} {ps : List Piece} {cs : List Char}
    (h : .run cs ∈ s.written ps) : .run cs ∈ ps := by
  induction ps generalizing s with
  | nil => cases s <;> simp [written_nil] at h
  | cons p ps ih =>
    cases p with
    | run cs' =>
      rw [written_run, List.mem_cons] at h
      exact List.mem_cons.mpr (h.imp id ih)
    | delim e =>
      have hmissing : .run cs ∉ s.missing e := by
        cases s with
        | top done => exact List.not_mem_nil
        | outer done d inner => exact List.not_mem_nil
        | nested done d inner innermost =>
          by_cases he : e = d <;> simp [missing, he]
      rw [written_delim, List.mem_append, List.mem_cons] at h
      rcases h with h | h | h
      · exact absurd h hmissing
      · cases h
      · exact List.mem_cons_of_mem _ (ih h)

end Spans

/-- The line with every span closed by its own delimiter. -/
def closed (line : List Char) : List Char :=
  Piece.flat ((Spans.top []).written (Piece.cut line))

namespace Rule

/-- The leaves of a run are written as the run. -/
theorem markups_leaves {run tail : List Char} (h : IsRun run tail) :
    markups (leaves run) = run := by
  refine h.leaves_induction (motive := fun run ns => markups ns = run) ?nil ?step
  case nil => rfl
  case step =>
    intro run r hrun hr hfront ih
    have hcut := (exact_expr leaf hr).text
    rw [markups_append, ih]
    rcases node_of_read_leaf hr with hnode | hnode <;>
      · rw [hnode, Option.toList_some, markups_singleton, markup, String.toList_ofList]
        exact hcut.symm

end Rule

section Closed

variable {line : List Char}

@[simp] theorem cut_closed : Piece.cut (closed line) = (Spans.top []).written (Piece.cut line) :=
  Piece.cut_flat ((Spans.top []).proper_written (Piece.proper_cut line))

/-- The pass over the closed line comes to the same nodes. -/
@[simp] theorem scan_closed : scan (closed line) = scan line := by
  rw [scan, cut_closed, Spans.close_run_written]
  rfl

theorem not_blocked_closed (h : ¬Blocked line) : ¬Blocked (closed line) := by
  rw [blocked_iff, Classical.not_not] at h ⊢
  rw [cut_closed]
  exact Spans.openable_written h

/-- The nodes of a line are written as the closed line. -/
theorem markups_scan (h : '\n' ∉ line) : markups (scan line) = closed line := by
  have hrun : ∀ cs, .run cs ∈ Piece.cut line → markups (Rule.leaves cs) = cs := fun cs hcs =>
    Rule.markups_leaves (isRun_of_run_mem_cut h hcs)
  rw [scan, Spans.markups_close_run _ hrun]
  rfl

/-- The closed line starts like the line, up to the first delimiter or the end of both. -/
theorem exists_eq_append_closed (line : List Char) : ∃ front,
    (line = front ∧ closed line = front) ∨
      ∃ (d : Delimiter) (rest rest' : List Char),
        line = front ++ d.char :: rest ∧ closed line = front ++ d.char :: rest' := by
  have hproper := Piece.proper_cut line
  have hline := Piece.flat_cut line
  rw [closed]
  generalize Piece.cut line = ps at hproper hline
  subst hline
  cases ps with
  | nil => exact ⟨[], .inl ⟨rfl, rfl⟩⟩
  | cons p ps =>
    cases p with
    | delim d => exact ⟨[], .inr ⟨d, _, _, rfl, rfl⟩⟩
    | run cs =>
      cases ps with
      | nil => exact ⟨cs, .inl ⟨by simp, by simp [Spans.step, Spans.append, Spans.written_nil]⟩⟩
      | cons p ps =>
        cases p with
        | run cs' => exact absurd hproper.2.2.1 (by simp [Piece.startsRun])
        | delim d =>
          have hwritten : (Spans.top []).written (.run cs :: .delim d :: ps) = .run cs ::
              .delim d :: (((Spans.top []).step (.run cs)).step (.delim d)).written ps := by
            rw [Spans.written_run, Spans.written_delim]
            rfl
          rw [hwritten]
          exact ⟨cs, .inr ⟨d, _, _, rfl, rfl⟩⟩

theorem not_mem_closed (h : '\n' ∉ line) : '\n' ∉ closed line := by
  intro hmem
  obtain ⟨p, hp, hc⟩ := Piece.mem_flat.mp hmem
  cases p with
  | delim d =>
    have hlf : '\n' ≠ d.char := by cases d <;> decide
    exact hlf (List.mem_singleton.mp hc)
  | run cs => exact not_mem_of_run_mem_cut h (Spans.run_mem_of_mem_written hp) hc

end Closed

end WikiMarkup
