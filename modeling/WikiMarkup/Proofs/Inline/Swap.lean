import WikiMarkup.Proofs.Inline.Shape
import WikiMarkup.Proofs.Node.Swap

/-!
# Lines with the delimiters exchanged

The pass over a line does not prefer one delimiter: over the line with its delimiters exchanged it
goes through the mirror images of the same states. So the nodes of that line are the mirror images
of the nodes of the line, and it is blocked exactly if the line is.
-/

namespace WikiMarkup

open Node

namespace Piece

def swap : Piece → Piece
  | .delim d => .delim d.other
  | .run cs => .run cs

variable {ps : List Piece}

@[simp] theorem startsRun_map_swap (ps : List Piece) : startsRun (ps.map swap) = startsRun ps := by
  cases ps with
  | nil => rfl
  | cons p ps => cases p <;> rfl

theorem head?_map_swap (d : Delimiter) :
    (ps.map swap).head? = some (.delim d.other) ↔ ps.head? = some (.delim d) := by
  cases ps with
  | nil => simp
  | cons p ps => cases p <;> simp [swap, Delimiter.other_inj]

theorem map_swap_push (c : Char) (ps : List Piece) :
    (push c ps).map swap = push c (ps.map swap) := by
  cases ps with
  | nil => rfl
  | cons p ps => cases p <;> rfl

/-- The cut falls at the same places. -/
theorem cut_map_swapDelim (cs : List Char) : cut (cs.map swapDelim) = (cut cs).map swap := by
  induction cs with
  | nil => rfl
  | cons c cs ih =>
    rw [List.map_cons]
    cases hc : Delimiter.ofChar? c with
    | some d =>
      obtain rfl := Delimiter.char_of_ofChar? hc
      simp [cut, swap, ih]
    | none => simp only [swapDelim_of_not_delim hc, cut, hc, ih, map_swap_push]

end Piece

namespace Spans

/-- The same spans, with bold and italics exchanged. -/
def swap : Spans → Spans
  | .top done => .top (done.map Node.swap)
  | .outer done d inner => .outer (done.map Node.swap) d.other (inner.map Node.swap)
  | .nested done d inner innermost =>
    .nested (done.map Node.swap) d.other (inner.map Node.swap) (innermost.map Node.swap)

variable {ps : List Piece}

theorem swap_append (s : Spans) (ns : List Node) :
    (s.append ns).swap = s.swap.append (ns.map Node.swap) := by
  cases s <;> simp [append, swap]

theorem swap_toggle (s : Spans) (e : Delimiter) : (s.toggle e).swap = s.swap.toggle e.other := by
  cases s with
  | top done => rfl
  | outer done d inner =>
    by_cases he : e = d <;> simp [toggle, swap, he, Delimiter.other_inj]
  | nested done d inner innermost =>
    by_cases he : e = d <;> simp [toggle, swap, he, Delimiter.other_inj]

theorem close_swap (s : Spans) : s.swap.close = s.close.map Node.swap := by
  cases s <;> simp [close, swap]

theorem opens_swap (s : Spans) (e : Delimiter) (ps : List Piece) :
    s.swap.Opens e.other (ps.map Piece.swap) ↔ s.Opens e ps := by
  cases s with
  | top done => exact and_congr (by simp) (not_congr (Piece.head?_map_swap e))
  | outer done d inner => simp [Opens, swap, Delimiter.other_inj]
  | nested done d inner innermost => exact Iff.rfl

/-- Leaves are their own mirror images, so a run is passed over alike. -/
theorem swap_step {p : Piece} (s : Spans)
    (h : ∀ cs, p = .run cs → (Rule.leaves cs).map Node.swap = Rule.leaves cs) :
    (s.step p).swap = s.swap.step p.swap := by
  cases p with
  | delim e => exact swap_toggle s e
  | run cs => rw [step, swap_append, h cs rfl, Piece.swap, step]

/-- The pass over the exchanged pieces goes through the mirror images of the states. -/
theorem swap_run (s : Spans)
    (h : ∀ cs, .run cs ∈ ps → (Rule.leaves cs).map Node.swap = Rule.leaves cs) :
    (s.run ps).swap = s.swap.run (ps.map Piece.swap) := by
  induction ps generalizing s with
  | nil => rfl
  | cons p ps ih =>
    rw [run_cons, List.map_cons, run_cons, ih _ fun cs hcs => h cs (List.mem_cons_of_mem p hcs),
      swap_step s fun cs hp => h cs (by simp [hp])]

theorem openable_swap (s : Spans) (ps : List Piece) :
    s.swap.Openable (ps.map Piece.swap) ↔ s.Openable ps := by
  induction ps generalizing s with
  | nil => exact Iff.rfl
  | cons p ps ih =>
    cases p with
    | run cs => simp only [List.map_cons, Piece.swap, openable_run, ih]
    | delim e =>
      have hrest : (s.swap.toggle e.other).Openable (ps.map Piece.swap) ↔
          (s.toggle e).Openable ps := by
        rw [← swap_toggle, ih]
      exact and_congr (opens_swap s e ps) hrest

end Spans

variable {line : List Char}

/-- The nodes of the exchanged line are the mirror images of those of the line. -/
theorem scan_map_swapDelim (h : '\n' ∉ line) :
    scan (line.map swapDelim) = (scan line).map Node.swap := by
  have hleaves : ∀ cs, .run cs ∈ Piece.cut line →
      (Rule.leaves cs).map Node.swap = Rule.leaves cs := by
    intro cs hcs
    obtain ⟨hrow, -⟩ := Rule.isRow_leaves (isRun_of_run_mem_cut h hcs)
    have hsame : ∀ n ∈ Rule.leaves cs, n.swap = id n := fun n hn => (hrow.all n hn).swap_eq
    rw [List.map_congr_left hsame, List.map_id]
  rw [scan, Piece.cut_map_swapDelim, scan, ← Spans.close_swap, Spans.swap_run _ hleaves]
  rfl

/-- A line is blocked exactly if its mirror image is. -/
theorem blocked_map_swapDelim : Blocked (line.map swapDelim) ↔ Blocked line := by
  rw [blocked_iff, blocked_iff, Piece.cut_map_swapDelim]
  exact not_congr (Spans.openable_swap (.top []) _)

end WikiMarkup
