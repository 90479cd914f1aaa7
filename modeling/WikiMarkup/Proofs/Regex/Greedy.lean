import WikiMarkup.Proofs.Peg.Frame
import WikiMarkup.Proofs.Regex.Search

/-!
# Patterns that do not go back

A pattern has all its matches at a place, and a later part of it may make do with one that the
earlier part does not prefer. A reader keeps what it found first. Both take the same if going back
is of no use: if the preferred match of the earlier part cannot be followed, no other one can.
-/

namespace WikiMarkup.Regex

open Peg

variable {ρ ν ε : Type} {r a b : Regex} {rs : List Regex} {s : Reader ν} {m : Reading ν}
  {readers : ρ → Reader ν} {e : Expr ρ ν ε} {es : List (Expr ρ ν ε)} {atStart : Bool}
  {cs : List Char}

/-! ## Preferred matches -/

/-- Where the second pattern has no match behind the preferred match of the first, it has none
behind another match either. -/
def Commits (a b : Regex) : Prop :=
  ∀ ⦃atStart cs k⦄, a.preferred? atStart cs = some k →
    b.lengths (atStart && k == 0) (cs.drop k) = [] →
      ∀ j ∈ a.lengths atStart cs, b.lengths (atStart && j == 0) (cs.drop j) = []

theorem commits_empty : Commits a .empty := by
  intro atStart cs k _ h
  cases h

theorem mem_lengths_chars {set : CharSet} {k : Nat} :
    k ∈ (chars set).lengths atStart cs ↔ k = 1 ∧ cs.head?.any set.contains = true := by
  cases cs with
  | nil => simp [lengths]
  | cons c cs => cases hc : set.contains c <;> simp [lengths, hc]

theorem commits_chars {set : CharSet} : Commits (.chars set) b := by
  intro atStart cs k hk hnext j hj
  obtain ⟨rfl, -⟩ := mem_lengths_chars.mp hj
  obtain ⟨rfl, -⟩ := mem_lengths_chars.mp (List.mem_of_mem_head? hk)
  exact hnext

/-- Two patterns of which the first commits itself take what they prefer one after the other. -/
theorem preferred?_seq (h : Commits a b) : (seq a b).preferred? atStart cs =
    (a.preferred? atStart cs).bind fun k =>
      (b.preferred? (atStart && k == 0) (cs.drop k)).map (k + ·) := by
  rw [preferred?, lengths, head?_eraseDups]
  cases hfirst : a.preferred? atStart cs with
  | none =>
    rw [preferred?_eq_none_iff] at hfirst
    rw [hfirst]
    rfl
  | some k =>
    cases hnext : b.lengths (atStart && k == 0) (cs.drop k) with
    | nil =>
      rw [List.flatMap_eq_nil_iff.mpr fun j hj => by rw [h hfirst hnext j hj, List.map_nil]]
      simp [preferred?, hnext]
    | cons n ns =>
      obtain ⟨others, hothers⟩ := List.head?_eq_some_iff.mp hfirst
      simp [hothers, preferred?, hnext]

theorem rounds_cons (step : List Char → List Nat) (c : Char) (cs : List Char) :
    rounds step (c :: cs) = (((step (c :: cs)).flatMap fun k =>
      if k = 0 then [0] else (rounds step (cs.drop (k - 1))).map (k + ·)) ++ [0]).eraseDups := by
  rw [rounds]

/-! ## Repeated characters -/

section RepeatedChars

variable {set : CharSet} {k : Nat}

theorem takeWhile_of_head? (h : cs.head?.any set.contains = true) :
    (cs.takeWhile set.contains).length = 1 + ((cs.drop 1).takeWhile set.contains).length := by
  cases cs with
  | nil => cases h
  | cons c cs =>
    have hc : set.contains c = true := h
    rw [List.takeWhile_cons_of_pos hc, List.length_cons, Nat.add_comm]
    rfl

theorem le_of_mem_rounds_chars (h : k ∈ rounds ((chars set).lengths false) cs) :
    k ≤ (cs.takeWhile set.contains).length := by
  induction cs generalizing k with
  | nil =>
    rw [rounds] at h
    exact Nat.le_of_eq (List.mem_singleton.mp h)
  | cons c cs ih =>
    rw [rounds_cons, List.mem_eraseDups, List.mem_append, List.mem_flatMap] at h
    rcases h with ⟨j, hj, hk⟩ | hk
    · obtain ⟨rfl, hc⟩ := mem_lengths_chars.mp hj
      obtain ⟨n, hn, rfl⟩ := List.mem_map.mp hk
      rw [takeWhile_of_head? hc]
      exact Nat.add_le_add_left (ih hn) 1
    · rw [List.mem_singleton.mp hk]
      exact Nat.zero_le _

/-- No match of a repetition goes beyond the characters of the set. -/
theorem le_of_mem_lengths_plus_chars (h : k ∈ (plus (.chars set)).lengths atStart cs) :
    k ≤ (cs.takeWhile set.contains).length := by
  rw [lengths, List.mem_eraseDups, List.mem_flatMap] at h
  obtain ⟨j, hj, hk⟩ := h
  obtain ⟨rfl, hc⟩ := mem_lengths_chars.mp hj
  obtain ⟨n, hn, rfl⟩ := List.mem_map.mp hk
  rw [takeWhile_of_head? hc]
  exact Nat.add_le_add_left (le_of_mem_rounds_chars hn) 1

/-- Within the characters of the set there is another one ahead. -/
theorem head?_drop_of_lt (h : k < (cs.takeWhile set.contains).length) :
    (cs.drop k).head?.any set.contains = true := by
  have hcs : cs.drop k = (cs.takeWhile set.contains).drop k ++ cs.dropWhile set.contains := by
    rw [← List.drop_append_of_le_length (Nat.le_of_lt h), List.takeWhile_append_dropWhile]
  have hmem := List.all_eq_true.mp List.all_takeWhile _ (List.getElem_mem h)
  rw [hcs, List.drop_eq_getElem_cons h]
  exact hmem

end RepeatedChars

/-! ## Patterns and readers -/

/-- At every place the pattern prefers to take as much as the reader takes. -/
def Prefers (r : Regex) (s : Reader ν) : Prop :=
  ∀ atStart cs, r.preferred? atStart cs = (s cs).map fun m => m.front.length

theorem Prefers.exists_lengths (h : r.Prefers s) (hm : s cs = some m) (atStart : Bool) :
    ∃ others, r.lengths atStart cs = m.front.length :: others :=
  List.head?_eq_some_iff.mp ((h atStart cs).trans (by rw [hm]; rfl))

theorem Prefers.lengths_eq_nil (h : r.Prefers s) (hm : s cs = none) (atStart : Bool) :
    r.lengths atStart cs = [] :=
  preferred?_eq_none_iff.mp ((h atStart cs).trans (by rw [hm]; rfl))

theorem prefers_chars (set : CharSet) (readers : ρ → Reader ν) :
    (chars set).Prefers ((Expr.pattern (anchored (.chars set)) : Expr ρ ν ε).read readers) := by
  intro atStart cs
  have htakes := @takesOne_pattern ρ ν ε set readers
  cases cs with
  | nil => rw [htakes.nil]; rfl
  | cons c cs =>
    cases hc : set.contains c with
    | false =>
      have hstop : (c :: cs).head?.any set.contains = false := hc
      simp [htakes.stop hstop, preferred?, lengths, hc]
    | true =>
      have hgo : (c :: cs).head?.any set.contains = true := hc
      obtain ⟨m, hm, -⟩ := htakes.take hgo
      simp [hm, preferred?, lengths, hc]

theorem sequence_cons (r : Regex) (rs : List Regex) :
    sequence (r :: rs) = seq r (sequence rs) := rfl

theorem prefers_sequence_nil :
    (sequence []).Prefers ((Expr.sequence [] : Expr ρ ν ε).read readers) := fun _ _ => rfl

theorem Prefers.sequence_cons (ha : a.Prefers (e.read readers)) (he : (e.read readers).Exact)
    (h : (sequence rs).Prefers ((Expr.sequence es).read readers)) (hab : Commits a (sequence rs)) :
    (sequence (a :: rs)).Prefers ((Expr.sequence (e :: es)).read readers) := by
  intro atStart cs
  rw [Regex.sequence_cons, preferred?_seq hab, ha atStart cs, Expr.read, Expr.readEach]
  cases hm : e.read readers cs with
  | none => rfl
  | some m =>
    have hrest := h (atStart && m.front.length == 0) m.rest
    rw [Expr.read] at hrest
    rw [Option.map_some, Option.bind_some, (he hm).drop_front, hrest, Option.bind_some]
    cases Expr.readEach readers es m.rest with
    | none => rfl
    | some stretch => simp [Reading.spanning, Stretch.cons]

theorem Prefers.onMatch (h : r.Prefers (e.read readers)) (transform : Transform ν ε) :
    r.Prefers ((Expr.onMatch e transform).read readers) := by
  intro atStart cs
  rw [h atStart cs, Expr.read, Option.map_map]
  rfl

/-- The further rounds that are preferred are those that a repetition gathers. -/
theorem Prefers.head?_rounds (h : r.Prefers s) (hs : s.Exact) (hp : s.Progresses)
    (cs : List Char) :
    (rounds (r.lengths false) cs).head? = some (readRounds s cs).front.length := by
  induction hn : cs.length using Nat.strongRecOn generalizing cs with
  | ind n ih =>
    subst hn
    cases cs with
    | nil => rw [rounds, readRounds_nil]; rfl
    | cons c cs =>
      rw [rounds_cons, head?_eraseDups]
      cases hm : s (c :: cs) with
      | none => rw [h.lengths_eq_nil hm, readRounds_of_none hm]; rfl
      | some m =>
        obtain ⟨others, hothers⟩ := h.exists_lengths hm false
        have hpos : 0 < m.front.length := List.length_pos_iff.mpr (hp hm)
        have hrest : cs.drop (m.front.length - 1) = m.rest := by
          rw [← (hs hm).drop_front, ← List.drop_succ_cons, Nat.sub_add_cancel hpos]
        have hmore := ih _ ((hs hm).length_lt_iff.mpr (hp hm)) m.rest rfl
        rw [hothers, List.flatMap_cons, if_neg (Nat.ne_of_gt hpos), hrest,
          readRounds_of_some hs hm (hp hm)]
        simp [hmore, Stretch.cons]

theorem Prefers.plus (h : r.Prefers s) (hs : s.Exact) (hp : s.Progresses) :
    r.plus.Prefers (readOneOrMore s) := by
  intro atStart cs
  rw [preferred?, lengths, head?_eraseDups]
  cases hm : s cs with
  | none => rw [h.lengths_eq_nil hm, readOneOrMore_of_none hm]; rfl
  | some m =>
    obtain ⟨others, hothers⟩ := h.exists_lengths hm atStart
    have hne : m.front.length ≠ 0 := List.length_eq_zero_iff.not.mpr (hp hm)
    have hmore := h.head?_rounds hs hp m.rest
    rw [hothers, List.flatMap_cons, if_neg hne, (hs hm).drop_front,
      readOneOrMore_of_some hs hm (hp hm), readRounds_of_some hs hm (hp hm)]
    simp [hmore, Reading.spanning, Stretch.cons]

/-! ## Cutting a text -/

/-- A text that starts with a match is cut behind it. -/
theorem Prefers.cut_of_some (h : r.Prefers s) (hs : s.Exact) (hp : s.Progresses)
    (hm : s cs = some m) : r.cut cs = .found m.front :: r.cut m.rest := by
  have hfind : r.find? cs = some (0, m.front.length) :=
    find?_of_preferred? ((h true cs).trans (by rw [hm]; rfl))
  rw [cut_of_find?_some hfind (List.length_pos_iff.mpr (hp hm)) (hp.ne_nil hs hm)]
  simp [gapBefore, (hs hm).take_front, (hs hm).drop_front]

/-- A text is cut where there is a match for the first time. -/
theorem Prefers.cut_append (h : r.Prefers s) (hs : s.Exact) (hp : s.Progresses)
    {front rest : List Char} (hne : front ≠ [])
    (hbefore : ∀ before after, front = before ++ after → after ≠ [] → s (after ++ rest) = none)
    (hrest : rest = [] ∨ (s rest).isSome) :
    r.cut (front ++ rest) = .gap front :: r.cut rest := by
  have hnone : ∀ j < front.length, s ((front ++ rest).drop j) = none := by
    intro j hj
    rw [List.drop_append_of_le_length (Nat.le_of_lt hj)]
    exact hbefore (front.take j) (front.drop j) (List.take_append_drop j front).symm
      (List.drop_eq_nil_iff.not.mpr (Nat.not_le_of_lt hj))
  have hne' : front ++ rest ≠ [] := List.append_ne_nil_of_left_ne_nil hne rest
  rcases hrest with rfl | hsome
  · have hfind : r.find? (front ++ []) = none := by
      rw [Option.eq_none_iff_forall_ne_some]
      rintro ⟨place, n⟩ hfound
      have hleftmost := find?_eq_some_iff.mp hfound
      have hpreferred := hleftmost.preferred
      rw [h] at hpreferred
      obtain ⟨m, hm, -⟩ := Option.map_eq_some_iff.mp hpreferred
      have hlt : place < front.length := by
        have hle := List.drop_eq_nil_iff.not.mp (hp.ne_nil hs hm)
        rw [List.append_nil] at hle
        exact Nat.lt_of_not_le hle
      rw [hnone place hlt] at hm
      cases hm
    rw [cut_of_find?_none hfind hne', List.append_nil, cut]
  · obtain ⟨m, hm⟩ := Option.isSome_iff_exists.mp hsome
    have hfind : r.find? (front ++ rest) = some (front.length, m.front.length) := by
      refine find?_eq_some_iff.mpr ⟨by simp, ?_, fun j hj => ?_⟩
      · rw [h, List.drop_left, hm]
        rfl
      · rw [h, hnone j hj]
        rfl
    rw [cut_of_find?_some hfind (List.length_pos_iff.mpr (hp hm)) hne', h.cut_of_some hs hp hm,
      ← List.drop_drop, List.drop_left, List.take_left, (hs hm).take_front, (hs hm).drop_front,
      gapBefore, if_neg hne]
    rfl

end WikiMarkup.Regex
