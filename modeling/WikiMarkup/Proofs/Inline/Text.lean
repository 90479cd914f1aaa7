import WikiMarkup.Proofs.Inline.Content
import WikiMarkup.Proofs.Node.Text

/-!
# The text of a line

The pass over a line keeps every character but the delimiters, in order and once: a run goes to the
end of what is gathered, and opening or closing spans moves nothing.
-/

namespace WikiMarkup

open Node

/-- The characters that are no delimiters. -/
def undelimited (cs : List Char) : List Char := cs.filter fun c => c != '*' && c != '/'

@[simp] theorem undelimited_append (xs ys : List Char) :
    undelimited (xs ++ ys) = undelimited xs ++ undelimited ys := List.filter_append xs ys

@[simp] theorem undelimited_delim (d : Delimiter) (cs : List Char) :
    undelimited (d.char :: cs) = undelimited cs := by
  cases d <;> rfl

theorem undelimited_eq_self {cs : List Char} (h : ∀ d : Delimiter, d.char ∉ cs) :
    undelimited cs = cs := by
  rw [undelimited, List.filter_eq_self]
  intro c hc
  have hstar : c ≠ '*' := by
    rintro rfl
    exact h .star hc
  have hslash : c ≠ '/' := by
    rintro rfl
    exact h .slash hc
  simp [hstar, hslash]

namespace Delimiter

@[simp] theorem shown_span (d : Delimiter) (ns : List Node) : (d.span ns).shown = allShown ns := by
  cases d <;> rfl

end Delimiter

namespace Rule

/-- The leaves of a run show the run. -/
theorem allShown_leaves {run tail : List Char} (h : IsRun run tail) :
    allShown (leaves run) = run := by
  refine h.leaves_induction (motive := fun run ns => allShown ns = run) ?nil ?step
  case nil => rfl
  case step =>
    intro run r hrun hr hfront ih
    have hcut := (exact_expr leaf hr).text
    rw [allShown_append, ih]
    rcases node_of_read_leaf hr with hnode | hnode <;>
      · rw [hnode, Option.toList_some, allShown_singleton, shown, String.toList_ofList]
        exact hcut.symm

end Rule

namespace Spans

theorem allShown_close_append (s : Spans) (ns : List Node) :
    allShown (s.append ns).close = allShown s.close ++ allShown ns := by
  cases s <;> simp [append, close]

theorem allShown_close_toggle (s : Spans) (e : Delimiter) :
    allShown (s.toggle e).close = allShown s.close := by
  cases s with
  | top done => simp [toggle, close, allShown]
  | outer done d inner =>
    by_cases he : e = d
    · simp [toggle, close, he]
    · simp [toggle, close, he, allShown]
  | nested done d inner innermost =>
    by_cases he : e = d
    · simp [toggle, close, he]
    · simp [toggle, close, he]

/-- What the pass gathers shows what the leaves of the runs show. -/
theorem allShown_close_run (s : Spans) {ps : List Piece} (hproper : Piece.Proper ps)
    (h : ∀ cs, .run cs ∈ ps → allShown (Rule.leaves cs) = cs) :
    allShown (s.run ps).close = allShown s.close ++ undelimited (Piece.flat ps) := by
  induction ps generalizing s with
  | nil => simp [undelimited]
  | cons p ps ih =>
    have hrest := ih (s.step p) hproper.tail fun cs hcs => h cs (List.mem_cons_of_mem p hcs)
    rw [run_cons, hrest]
    cases p with
    | delim e => rw [step, allShown_close_toggle, Piece.flat_delim, undelimited_delim]
    | run cs =>
      have hcs := h cs (List.mem_cons_self ..)
      have hplain := undelimited_eq_self hproper.2.1
      rw [step, allShown_close_append, hcs, Piece.flat_run, undelimited_append, hplain,
        List.append_assoc]

end Spans

/-- The nodes of a line show the line without its delimiters. -/
theorem allShown_scan {line : List Char} (h : '\n' ∉ line) :
    allShown (scan line) = undelimited line := by
  have hruns : ∀ cs, .run cs ∈ Piece.cut line → allShown (Rule.leaves cs) = cs := fun cs hcs =>
    Rule.allShown_leaves (isRun_of_run_mem_cut h hcs)
  rw [scan, Spans.allShown_close_run _ (Piece.proper_cut line) hruns, Piece.flat_cut]
  rfl

end WikiMarkup
