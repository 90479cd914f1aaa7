import WikiMarkup.Proofs.Inline.Content
import WikiMarkup.Proofs.Node.Shape

/-!
# The shape of a line

The leaves of a run alternate between texts and links, and the pass over a line keeps what it
gathers in shape: two runs have a span between them, and an open span that is still empty has
something ahead that goes into it.
-/

namespace WikiMarkup

open Node Peg

namespace Rule

variable {run tail cs : List Char} {r : Reading Node}

/-! ## Leaves -/

theorem IsRun.not_mem (h : IsRun run tail) : '\n' ∉ run := by
  obtain ⟨-, hclear, -⟩ := h
  induction run with
  | nil => exact List.not_mem_nil
  | cons c cs ih =>
    obtain ⟨hline, hclear⟩ := hclear
    have hc : '\n' ≠ c := by
      rintro rfl
      cases hline
    simp [hc, ih hclear]

/-- A leaf is a link if there is one, and a text otherwise. -/
theorem link_or_text_of_read_leaf (h : leaf.read read cs = some r) :
    (link.read cs = some r ∧ r.found.node = some (.link (String.ofList r.front))) ∨
      (text.read cs = some r ∧ r.found.node = some (.text (String.ofList r.front)) ∧
        r = textReading (splitWhile textGoes cs)) := by
  rw [read_leaf] at h
  rcases Option.or_eq_some_iff.mp h with hlink | ⟨-, htext⟩
  · exact .inl ⟨hlink, node_of_read_link hlink⟩
  · have hread := htext
    rw [read_text, Option.ite_none_left_eq_some] at hread
    cases hread.2
    exact .inr ⟨htext, rfl, rfl⟩

/-- There is no text right behind a text. -/
theorem read_text_rest (cs : List Char) : text.read (splitWhile textGoes cs).2 = none := by
  rw [read_text, if_pos]
  cases hrest : (splitWhile textGoes cs).2 with
  | nil => rfl
  | cons c rest =>
    have hgo : textGoes (splitWhile textGoes cs).2 = false :=
      not_go_splitWhile (by rw [hrest]; exact List.cons_ne_nil c rest)
    rw [hrest] at hgo
    simp [splitWhile, hgo]

/-- A text of a run is plain. -/
theorem isPlain_text (h : IsRun run tail) (hne : (splitWhile textGoes run).1 ≠ []) :
    IsPlain (String.ofList (splitWhile textGoes run).1) := by
  have hcut := splitWhile_append textGoes run
  have hmem : ∀ c ∈ (splitWhile textGoes run).1, c ∈ run := fun c hc => by
    rw [← hcut]
    exact List.mem_append_left _ hc
  refine ⟨?_, ?_, ?_⟩
  · rwa [Ne, ← String.toList_eq_nil_iff, String.toList_ofList]
  · intro c hc
    rw [String.toList_ofList] at hc
    refine ⟨?_, ?_, ?_⟩ <;> rintro rfl
    · exact h.not_mem (hmem _ hc)
    · exact h.plain .star (hmem _ hc)
    · exact h.plain .slash (hmem _ hc)
  · intro index c hc
    obtain ⟨front, hfront, -, -⟩ := Text.splitBytes_eq_some (Cursor.advance_eq_ok hc)
    have hsplit : (splitWhile textGoes run).1 = front ++ c.rest := by
      rw [← hfront]
      exact (String.toList_ofList).symm
    rw [run_eq, read_link_of_text hsplit]
    rfl

/-- The leaves of a run are in shape, and there are some unless the run is empty. -/
theorem isRow_leaves (h : IsRun run tail) :
    IsRow IsLeaf (leaves run) ∧ (run ≠ [] → leaves run ≠ []) := by
  -- A leaf at the head tells which rule applies there, so the leaf before it is of the other kind.
  suffices hshape : IsRow IsLeaf (leaves run) ∧ (run ≠ [] → leaves run ≠ []) ∧
      ∀ n ∈ (leaves run).head?, (n.kind = .link → (link.read run).isSome) ∧
        (n.kind = .text → (text.read run).isSome) from ⟨hshape.1, hshape.2.1⟩
  refine h.leaves_induction (motive := fun run ns => IsRow IsLeaf ns ∧ (run ≠ [] → ns ≠ []) ∧
    ∀ n ∈ ns.head?, (n.kind = .link → (link.read run).isSome) ∧
      (n.kind = .text → (text.read run).isSome)) ?nil ?step
  case nil => exact ⟨.nil _, fun hne => absurd rfl hne, by simp⟩
  case step =>
    rintro run r hrun hr hfront ⟨hrow, -, hhead⟩
    rcases link_or_text_of_read_leaf hr with ⟨hlink, hnode⟩ | ⟨htext, hnode, hreading⟩
    · have hword : IsLeaf (.link (String.ofList r.front)) := by
        rw [IsLeaf, String.toList_ofList]
        exact isWikiWord_of_read_link hlink
      rw [hnode, Option.toList_some, List.singleton_append]
      refine ⟨.cons hword hrow fun n hn => ⟨by simp [kind], ?_⟩, by simp, ?_⟩
      · rintro ⟨-, hkind⟩
        have hsome := (hhead n hn).1 hkind
        rw [read_link_rest hlink] at hsome
        cases hsome
      · simp [kind, hlink]
    · have hplain : IsLeaf (.text (String.ofList r.front)) := by
        subst hreading
        exact isPlain_text hrun hfront
      rw [hnode, Option.toList_some, List.singleton_append]
      refine ⟨.cons hplain hrow fun n hn => ⟨?_, by simp [kind]⟩, by simp, ?_⟩
      · rintro ⟨-, hkind⟩
        have hsome := (hhead n hn).2 hkind
        have hrest := read_text_rest run
        subst hreading
        rw [textReading, hrest] at hsome
        cases hsome
      · simp [kind, htext]

end Rule

namespace Spans

/-- A run may only follow where no leaf stands last. -/
def Ready (ns : List Node) (ps : List Piece) : Prop := Piece.startsRun ps → EndsOpen ns

/-- What is gathered is in shape, and the pieces ahead go on with it: an open span that is still
empty does not end before something is put into it. -/
inductive Shaped : Spans → List Piece → Prop where
  | top {done : List Node} {ps : List Piece} : IsRow IsInline done → Ready done ps →
    Shaped (.top done) ps
  | outer {done inner : List Node} {d : Delimiter} {ps : List Piece} : IsRow IsInline done →
    IsRow (IsContent d) inner → Ready inner ps →
    (inner = [] → Piece.startsRun ps ∨ ps.head? = some (.delim d.other)) →
    Shaped (.outer done d inner) ps
  | nested {done inner innermost : List Node} {d : Delimiter} {ps : List Piece} :
    IsRow IsInline done → IsRow (IsContent d) inner → IsRow IsLeaf innermost →
    Ready innermost ps → (innermost = [] → Piece.startsRun ps) →
    Shaped (.nested done d inner innermost) ps

namespace Shaped

variable {s : Spans} {p : Piece} {ps : List Piece} {d e : Delimiter}
  {done inner innermost : List Node}

theorem ready_of_not_startsRun {ns : List Node} (h : Piece.startsRun ps = false) : Ready ns ps := by
  intro hrun
  rw [h] at hrun
  cases hrun

theorem append_run {cs : List Char} (h : Shaped s (.run cs :: ps))
    (hnext : Piece.startsRun ps = false) (hrow : IsRow IsLeaf (Rule.leaves cs))
    (hne : Rule.leaves cs ≠ []) : Shaped (s.append (Rule.leaves cs)) ps := by
  cases h with
  | top hdone hready =>
    exact .top (hdone.append (hrow.mono fun _ => .inl) (hready rfl)) (ready_of_not_startsRun hnext)
  | outer hdone hinner hready _ =>
    exact .outer hdone (hinner.append (hrow.mono fun _ => .inl) (hready rfl))
      (ready_of_not_startsRun hnext) fun hnil => absurd (List.append_eq_nil_iff.mp hnil).2 hne
  | nested hdone hinner hinnermost hready _ =>
    exact .nested hdone hinner (hinnermost.append hrow (hready rfl))
      (ready_of_not_startsRun hnext) fun hnil => absurd (List.append_eq_nil_iff.mp hnil).2 hne

/-- A span that is not empty may be closed. -/
theorem close_outer (hdone : IsRow IsInline done) (hinner : IsRow (IsContent d) inner)
    (hne : inner ≠ []) : IsRow IsInline (done ++ [d.span inner]) :=
  hdone.concat (.inr ⟨d, inner, rfl, hne, hinner⟩) (leafText?_span d inner)

theorem close_nested (hinner : IsRow (IsContent d) inner) (hinnermost : IsRow IsLeaf innermost)
    (hne : innermost ≠ []) : IsRow (IsContent d) (inner ++ [d.other.span innermost]) :=
  hinner.concat (.inr ⟨innermost, rfl, hne, hinnermost⟩) (leafText?_span d.other innermost)

theorem toggle (h : Shaped s (.delim e :: ps)) (hopens : s.Opens e ps) :
    Shaped (s.toggle e) ps := by
  cases h with
  | top hdone _ =>
    obtain ⟨hne, hhead⟩ := hopens
    refine .outer hdone (.nil _) (fun _ => endsOpen_nil) fun _ => ?_
    obtain ⟨p, ps, rfl⟩ := List.exists_cons_of_ne_nil hne
    cases p with
    | run cs => exact .inl rfl
    | delim f =>
      have hf : f ≠ e := fun he => hhead (by rw [he]; rfl)
      exact .inr (by rw [Delimiter.eq_other_of_ne hf]; rfl)
  | @outer done inner d _ hdone hinner _ hempty =>
    by_cases he : e = d
    · subst he
      have hne : inner ≠ [] := fun hnil => by simpa [Piece.startsRun] using hempty hnil
      rw [Spans.toggle, if_pos rfl]
      exact .top (close_outer hdone hinner hne) fun _ => by simp
    · rw [Spans.toggle, if_neg he]
      exact .nested hdone hinner (.nil _) (fun _ => endsOpen_nil)
        fun _ => hopens.resolve_left he
  | @nested done inner innermost d _ hdone hinner hinnermost _ hempty =>
    have hne : innermost ≠ [] := fun hnil => by simpa [Piece.startsRun] using hempty hnil
    have hclosed := close_nested hinner hinnermost hne
    by_cases he : e = d
    · rw [Spans.toggle, if_pos he]
      exact .top (close_outer hdone hclosed (by simp)) fun _ => by simp
    · rw [Spans.toggle, if_neg he]
      exact .outer hdone hclosed (fun _ => by simp) fun hnil => by simp at hnil

/-- One piece of the pass keeps the shape. -/
theorem step (h : Shaped s (p :: ps)) (hproper : Piece.Proper (p :: ps))
    (hopen : s.Openable (p :: ps)) (hrun : ∀ cs, p = .run cs → Rule.IsRun cs []) :
    Shaped (s.step p) ps := by
  cases p with
  | delim e => exact h.toggle hopen.1
  | run cs =>
    obtain ⟨hrow, hne⟩ := Rule.isRow_leaves (hrun cs rfl)
    exact h.append_run hproper.2.2.1 hrow (hne hproper.1)

/-- So does the whole pass, if every delimiter can open its span. -/
theorem run (h : Shaped s ps) (hproper : Piece.Proper ps) (hopen : s.Openable ps)
    (hrun : ∀ cs, .run cs ∈ ps → Rule.IsRun cs []) : Shaped (s.run ps) [] := by
  induction ps generalizing s with
  | nil => exact h
  | cons p ps ih =>
    have hstep := h.step hproper hopen fun cs hp => hrun cs (by simp [hp])
    refine ih hstep hproper.tail ?_ fun cs hcs => hrun cs (List.mem_cons_of_mem p hcs)
    cases p with
    | delim e => exact hopen.2
    | run cs => exact hopen

/-- At the end of the line what is open may be closed. -/
theorem close (h : Shaped s []) : IsRow IsInline s.close := by
  cases h with
  | top hdone _ => exact hdone
  | @outer done inner d _ hdone hinner _ hempty =>
    have hne : inner ≠ [] := fun hnil => by simpa [Piece.startsRun] using hempty hnil
    exact close_outer hdone hinner hne
  | @nested done inner innermost d _ hdone hinner hinnermost _ hempty =>
    have hne : innermost ≠ [] := fun hnil => by simpa [Piece.startsRun] using hempty hnil
    exact close_outer hdone (close_nested hinner hinnermost hne) (by simp)

end Shaped

end Spans

/-- The nodes of a line that is not blocked are in shape. -/
theorem isRow_scan {line : List Char} (h : '\n' ∉ line) (hopen : ¬Blocked line) :
    IsRow IsInline (scan line) := by
  rw [blocked_iff, Classical.not_not] at hopen
  have hstart : (Spans.top []).Shaped (Piece.cut line) := .top (.nil _) fun _ => endsOpen_nil
  exact (hstart.run (Piece.proper_cut line) hopen fun _ hcs => isRun_of_run_mem_cut h hcs).close

end WikiMarkup
