import WikiMarkup.Proofs.Peg.Reading

/-!
# Rounds of a repetition

What a repetition gathers, one round at a time. The nodes of the rounds are what a grammar takes
from a repetition, so they come with the equations. A repetition of single characters is a cut of
the text in two: it ends before the first place that does not go on.
-/

namespace WikiMarkup.Peg

variable {ρ ν ε : Type} {s : Reader ν} {cs : List Char} {r : Reading ν}

/-- The nodes of the parts, in order. -/
def Stretch.nodes (s : Stretch ν) : List ν := s.parts.filterMap Match.node

@[simp] theorem Stretch.nodes_empty (cs : List Char) : (empty cs : Stretch ν).nodes = [] := rfl

@[simp] theorem Stretch.rest_empty (cs : List Char) : (empty cs : Stretch ν).rest = cs := rfl

@[simp] theorem Stretch.nodes_cons (r : Reading ν) (s : Stretch ν) :
    (cons r s).nodes = r.found.node.toList ++ s.nodes := by
  cases hnode : r.found.node <;> simp [cons, nodes, hnode]

@[simp] theorem Stretch.rest_cons (r : Reading ν) (s : Stretch ν) : (cons r s).rest = s.rest := rfl

theorem readRounds_of_none (h : s cs = none) : readRounds s cs = .empty cs := by
  rw [readRounds, h]

/-- A round that consumes something is recorded, and the next follows. -/
theorem readRounds_of_some (hs : s.Exact) (h : s cs = some r) (hne : r.front ≠ []) :
    readRounds s cs = .cons r (readRounds s r.rest) := by
  rw [readRounds, h]
  exact if_pos ((hs h).length_lt_iff.mpr hne)

/-- There is no round at the end of the text, or one that consumes nothing. -/
theorem readRounds_nil (s : Reader ν) : readRounds s [] = .empty [] := by
  cases h : s [] with
  | none => exact readRounds_of_none h
  | some r =>
    rw [readRounds, h]
    exact if_neg (Nat.not_lt_zero _)

theorem readOneOrMore_of_none (h : s cs = none) : readOneOrMore s cs = none := by
  rw [readOneOrMore, h]
  rfl

/-- If the first round consumes something, one or more rounds are zero or more rounds. -/
theorem readOneOrMore_of_some (hs : s.Exact) (h : s cs = some r) (hne : r.front ≠ []) :
    readOneOrMore s cs = some (.spanning (readRounds s cs)) := by
  rw [readOneOrMore, h, readRounds_of_some hs h hne]
  exact congrArg some (if_neg hne)

/-- If each round has a node, so has each part of a repetition. -/
theorem map_node_parts_readRounds (h : ∀ ⦃cs r⦄, s cs = some r → r.found.node.isSome)
    (cs : List Char) :
    (readRounds s cs).parts.map Match.node = (readRounds s cs).nodes.map some := by
  fun_induction readRounds s cs with
  | case1 cs hnone => rfl
  | case2 cs r hr hlt ih =>
    obtain ⟨node, hnode⟩ := Option.isSome_iff_exists.mp (h hr)
    rw [Stretch.nodes_cons, hnode, List.map_append, ← ih, Stretch.cons, List.map_cons, hnode]
    rfl
  | case3 cs r hr hnlt => rfl

/-! ## Progress -/

/-- The reader never finds a match that consumes nothing. -/
def Reader.Progresses (s : Reader ν) : Prop := ∀ ⦃cs r⦄, s cs = some r → r.front ≠ []

/-- A sequence makes progress if its first element does. -/
theorem Reader.Progresses.sequence {readers : ρ → Reader ν} {e : Expr ρ ν ε}
    (h : Reader.Progresses (e.read readers)) (es : List (Expr ρ ν ε)) :
    Reader.Progresses ((Expr.sequence (e :: es)).read readers) := by
  intro cs r hr
  obtain ⟨stretch, hstretch, rfl⟩ := Option.map_eq_some_iff.mp hr
  obtain ⟨first, hfirst, hrest⟩ := Option.bind_eq_some_iff.mp hstretch
  obtain ⟨tail, _, rfl⟩ := Option.map_eq_some_iff.mp hrest
  have hne := h hfirst
  simp [Reading.spanning, Stretch.cons, hne]

theorem Reader.Progresses.onMatch {readers : ρ → Reader ν} {e : Expr ρ ν ε}
    (h : Reader.Progresses (e.read readers)) (transform : Transform ν ε) :
    Reader.Progresses ((Expr.onMatch e transform).read readers) := by
  intro cs r hr
  obtain ⟨inner, hinner, rfl⟩ := Option.map_eq_some_iff.mp hr
  change inner.front ≠ []
  exact h hinner

theorem Reader.Progresses.ne_nil (h : s.Progresses) (hs : s.Exact) (hr : s cs = some r) :
    cs ≠ [] := by
  rw [(hs hr).text]
  exact List.append_ne_nil_of_left_ne_nil (h hr) r.rest

/-- If rounds make progress, a repetition ends where the next would fail. -/
theorem Reader.Progresses.read_rest_readRounds (h : s.Progresses) (hs : s.Exact) (cs : List Char) :
    s (Peg.readRounds s cs).rest = none := by
  fun_induction Peg.readRounds s cs with
  | case1 cs hnone => exact hnone
  | case2 cs r hr hlt ih => exact ih
  | case3 cs r hr hnlt => exact absurd ((hs hr).length_lt_iff.mpr (h hr)) hnlt

/-- What a repetition consumes is what its rounds consume, one after another. -/
theorem exists_fronts_readRounds {P : List Char → Prop} (h : ∀ ⦃cs r⦄, s cs = some r → P r.front)
    (cs : List Char) :
    ∃ fronts : List (List Char), (∀ front ∈ fronts, P front) ∧
      (readRounds s cs).front = fronts.flatten := by
  fun_induction readRounds s cs with
  | case1 cs hnone => exact ⟨[], List.forall_mem_nil _, rfl⟩
  | case2 cs r hr hlt ih =>
    obtain ⟨fronts, hfronts, heq⟩ := ih
    refine ⟨r.front :: fronts, List.forall_mem_cons.mpr ⟨h hr, hfronts⟩, ?_⟩
    rw [Stretch.cons, heq, List.flatten_cons]
  | case3 cs r hr hnlt => exact ⟨[], List.forall_mem_nil _, rfl⟩

/-! ## Repeating single characters -/

/-- Cut a list before the first place at which `go` does not hold of the rest. -/
def splitWhile (go : List Char → Bool) : List Char → List Char × List Char
  | [] => ([], [])
  | c :: cs =>
    if go (c :: cs) then (c :: (splitWhile go cs).1, (splitWhile go cs).2) else ([], c :: cs)

theorem splitWhile_append (go : List Char → Bool) (cs : List Char) :
    (splitWhile go cs).1 ++ (splitWhile go cs).2 = cs := by
  induction cs with
  | nil => rfl
  | cons c cs ih => by_cases h : go (c :: cs) <;> simp [splitWhile, h, ih]

/-- Before the cut `go` holds at each place. -/
theorem go_of_splitWhile {go : List Char → Bool} {cs before after : List Char}
    (h : (splitWhile go cs).1 = before ++ after) (hne : after ≠ []) :
    go (after ++ (splitWhile go cs).2) = true := by
  induction cs generalizing before with
  | nil => exact absurd (List.append_eq_nil_iff.mp h.symm).2 hne
  | cons c cs ih =>
    rw [splitWhile] at h ⊢
    split at h
    · next hgo =>
      rw [if_pos hgo]
      cases before with
      | nil =>
        rw [List.nil_append] at h
        rw [← h, List.cons_append, splitWhile_append]
        exact hgo
      | cons b before => exact ih (List.cons.inj h).2
    · exact absurd (List.append_eq_nil_iff.mp h.symm).2 hne

/-- At the cut `go` does not hold. -/
theorem not_go_splitWhile {go : List Char → Bool} {cs : List Char}
    (h : (splitWhile go cs).2 ≠ []) : go (splitWhile go cs).2 = false := by
  induction cs with
  | nil => exact absurd rfl h
  | cons c cs ih =>
    rw [splitWhile] at h ⊢
    split at h
    · next hgo =>
      rw [if_pos hgo]
      exact ih h
    · next hgo =>
      rw [if_neg hgo]
      exact eq_false_of_ne_true hgo

/-- If only the next character matters, the cut is that of `takeWhile` and `dropWhile`. -/
theorem splitWhile_head (p : Char → Bool) (cs : List Char) :
    splitWhile (fun rest => rest.head?.any p) cs = (cs.takeWhile p, cs.dropWhile p) := by
  induction cs with
  | nil => rfl
  | cons c cs ih => by_cases h : p c <;> simp [splitWhile, h, ih]

/-- The reader takes one character where `go` holds of the text ahead, and fails elsewhere. -/
structure Reader.TakesOne (s : Reader ν) (go : List Char → Bool) : Prop where
  nil : s [] = none
  stop : ∀ ⦃c cs⦄, go (c :: cs) = false → s (c :: cs) = none
  take : ∀ ⦃c cs⦄, go (c :: cs) = true →
    ∃ m, s (c :: cs) = some ⟨m, [c], cs⟩ ∧ m.consumed = c.utf8Size

variable {go : List Char → Bool}

theorem Reader.TakesOne.of_eq_some (h : s.TakesOne go) (hr : s cs = some r) :
    ∃ c rest, cs = c :: rest ∧ go cs = true ∧ r.front = [c] ∧ r.rest = rest := by
  cases cs with
  | nil => rw [h.nil] at hr; cases hr
  | cons c cs =>
    cases hgo : go (c :: cs) with
    | false => rw [h.stop hgo] at hr; cases hr
    | true =>
      obtain ⟨m, hm, _⟩ := h.take hgo
      rw [hm] at hr
      cases hr
      exact ⟨c, cs, rfl, rfl, rfl, rfl⟩

theorem Reader.TakesOne.exact (h : s.TakesOne go) : s.Exact := by
  intro cs r hr
  obtain ⟨c, rest, rfl, hgo, hfront, hrest⟩ := h.of_eq_some hr
  obtain ⟨m, hm, hsize⟩ := h.take hgo
  rw [hm] at hr
  cases hr
  exact ⟨rfl, by simp [hsize]⟩

theorem Reader.TakesOne.progresses (h : s.TakesOne go) : s.Progresses := by
  intro cs r hr
  obtain ⟨c, rest, -, -, hfront, -⟩ := h.of_eq_some hr
  rw [hfront]
  exact List.cons_ne_nil c []

theorem Reader.TakesOne.readRounds (h : s.TakesOne go) (cs : List Char) :
    (Peg.readRounds s cs).front = (splitWhile go cs).1 ∧
      (Peg.readRounds s cs).rest = (splitWhile go cs).2 := by
  induction cs with
  | nil => rw [readRounds_of_none h.nil]; exact ⟨rfl, rfl⟩
  | cons c cs ih =>
    cases hgo : go (c :: cs) with
    | false => rw [readRounds_of_none (h.stop hgo)]; simp [splitWhile, hgo, Stretch.empty]
    | true =>
      obtain ⟨m, hm, _⟩ := h.take hgo
      rw [readRounds_of_some h.exact hm (List.cons_ne_nil c [])]
      simp [splitWhile, hgo, Stretch.cons, ih]

end WikiMarkup.Peg
