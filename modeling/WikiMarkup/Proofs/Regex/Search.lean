import WikiMarkup.Regex.Basic

/-!
# The leftmost match

A search finds the leftmost place at which there is a match, and there the preferred one. It does
not go on from the start if every match has to begin there, which spares work and changes nothing.
-/

namespace WikiMarkup.Regex

variable {r a b : Regex} {cs : List Char} {skipped place n : Nat}

/-- How many characters the preferred match at the place takes, if there is one. -/
def preferred? (r : Regex) (atStart : Bool) (cs : List Char) : Option Nat :=
  (r.lengths atStart cs).head?

theorem preferred?_eq_none_iff {atStart : Bool} :
    r.preferred? atStart cs = none ↔ r.lengths atStart cs = [] := List.head?_eq_none_iff

/-- The first of the entries is kept where repeated ones are dropped. -/
@[simp] theorem head?_eraseDups (l : List Nat) : l.eraseDups.head? = l.head? := by
  cases l with
  | nil => rfl
  | cons k l => rw [List.eraseDups_cons, List.head?_cons, List.head?_cons]

/-- Behind the start there is no match that has to begin there. -/
theorem lengths_false_of_isAnchored (h : r.isAnchored) (cs : List Char) :
    r.lengths false cs = [] := by
  induction r generalizing cs with
  | empty => cases h
  | chars set => cases h
  | start => rfl
  | seq a b iha ihb => rw [lengths, iha h]; rfl
  | alt a b iha ihb =>
    obtain ⟨ha, hb⟩ := Bool.and_eq_true_iff.mp h
    rw [lengths, iha ha, ihb hb]
    rfl
  | plus a ih => rw [lengths, ih h]; rfl

/-- A match that takes `n` characters from a place on, with none at the places before it, and none
preferred to it there. -/
structure IsLeftmost (r : Regex) (cs : List Char) (place n : Nat) : Prop where
  le_length : place ≤ cs.length
  preferred : r.preferred? (place == 0) (cs.drop place) = some n
  before : ∀ j < place, r.preferred? (j == 0) (cs.drop j) = none

/-- A place behind the start is found by looking in vain at those before it. -/
theorem findLater_eq_some_iff : r.findLater skipped cs = some (place, n) ↔
    ∃ k ≤ cs.length, place = skipped + k ∧ r.preferred? false (cs.drop k) = some n ∧
      ∀ j < k, r.preferred? false (cs.drop j) = none := by
  induction cs generalizing skipped with
  | nil =>
    rw [findLater, ← preferred?, Option.map_eq_some_iff]
    constructor
    · rintro ⟨n', hn, heq⟩
      cases heq
      exact ⟨0, Nat.le_refl 0, rfl, hn, nofun⟩
    · rintro ⟨k, hk, rfl, hn, -⟩
      obtain rfl := Nat.le_zero.mp hk
      exact ⟨n, hn, rfl⟩
  | cons c cs ih =>
    rw [findLater, ← preferred?]
    cases hhere : r.preferred? false (c :: cs) with
    | some n' =>
      constructor
      · rintro heq
        cases heq
        exact ⟨0, Nat.zero_le _, rfl, hhere, nofun⟩
      · rintro ⟨k, -, rfl, hn, hbefore⟩
        cases k with
        | zero =>
          rw [List.drop_zero, hhere] at hn
          cases hn
          rfl
        | succ k =>
          have hnone := hbefore 0 (Nat.succ_pos k)
          rw [List.drop_zero, hhere] at hnone
          cases hnone
    | none =>
      simp only [ih]
      constructor
      · rintro ⟨k, hk, rfl, hn, hbefore⟩
        refine ⟨k + 1, Nat.succ_le_succ hk, by omega, hn, fun j hj => ?_⟩
        cases j with
        | zero => exact hhere
        | succ j => exact hbefore j (Nat.lt_of_succ_lt_succ hj)
      · rintro ⟨k, hk, rfl, hn, hbefore⟩
        cases k with
        | zero =>
          rw [List.drop_zero, hhere] at hn
          cases hn
        | succ k =>
          exact ⟨k, Nat.le_of_succ_le_succ hk, by omega, hn,
            fun j hj => hbefore (j + 1) (Nat.succ_lt_succ hj)⟩

theorem find?_of_preferred? (h : r.preferred? true cs = some n) : r.find? cs = some (0, n) := by
  unfold preferred? at h
  unfold find?
  rw [h]

/-- If there is no match at the start, the search goes on behind it, if at all. -/
theorem find?_cons_of_preferred? {c : Char} (h : r.preferred? true (c :: cs) = none) :
    r.find? (c :: cs) = r.findLater 1 cs := by
  unfold preferred? at h
  unfold find?
  rw [h]
  by_cases hanchored : r.isAnchored
  · have hnone : r.findLater 1 cs = none := by
      rw [Option.eq_none_iff_forall_ne_some]
      rintro ⟨place, n⟩ hsome
      obtain ⟨k, -, -, hn, -⟩ := findLater_eq_some_iff.mp hsome
      rw [preferred?, lengths_false_of_isAnchored hanchored] at hn
      cases hn
    rw [hnone]
    exact if_pos hanchored
  · exact if_neg hanchored

theorem isLeftmost_zero_iff : r.IsLeftmost cs 0 n ↔ r.preferred? true cs = some n :=
  ⟨fun h => h.preferred, fun h => ⟨Nat.zero_le _, h, nofun⟩⟩

theorem isLeftmost_succ_iff {c : Char} : r.IsLeftmost (c :: cs) (place + 1) n ↔
    r.preferred? true (c :: cs) = none ∧ place ≤ cs.length ∧
      r.preferred? false (cs.drop place) = some n ∧
      ∀ j < place, r.preferred? false (cs.drop j) = none := by
  constructor
  · rintro ⟨hle, hn, hbefore⟩
    exact ⟨hbefore 0 (Nat.succ_pos _), Nat.le_of_succ_le_succ hle, hn,
      fun j hj => hbefore (j + 1) (Nat.succ_lt_succ hj)⟩
  · rintro ⟨hstart, hle, hn, hbefore⟩
    refine ⟨Nat.succ_le_succ hle, hn, fun j hj => ?_⟩
    cases j with
    | zero => exact hstart
    | succ j => exact hbefore j (Nat.lt_of_succ_lt_succ hj)

/-- The search finds the leftmost match, and nothing else. -/
theorem find?_eq_some_iff : r.find? cs = some (place, n) ↔ r.IsLeftmost cs place n := by
  cases hstart : r.preferred? true cs with
  | some n' =>
    rw [find?_of_preferred? hstart]
    cases place with
    | zero => rw [isLeftmost_zero_iff, hstart]; simp
    | succ place =>
      refine iff_of_false (by simp) fun h => ?_
      have hnone : r.preferred? true cs = none := h.before 0 (Nat.succ_pos place)
      rw [hstart] at hnone
      cases hnone
  | none =>
    cases cs with
    | nil =>
      have hnone : r.find? [] = none := by
        unfold preferred? at hstart
        unfold find?
        rw [hstart]
      rw [hnone]
      refine iff_of_false (by simp) fun h => ?_
      obtain rfl := Nat.le_zero.mp h.le_length
      rw [isLeftmost_zero_iff, hstart] at h
      cases h
    | cons c cs =>
      rw [find?_cons_of_preferred? hstart, findLater_eq_some_iff]
      cases place with
      | zero =>
        rw [isLeftmost_zero_iff, hstart]
        refine iff_of_false ?_ (by simp)
        rintro ⟨k, -, heq, -⟩
        omega
      | succ place =>
        rw [isLeftmost_succ_iff]
        constructor
        · rintro ⟨k, hk, heq, hn, hbefore⟩
          obtain rfl : place = k := by omega
          exact ⟨hstart, hk, hn, hbefore⟩
        · rintro ⟨-, hle, hn, hbefore⟩
          exact ⟨place, hle, by omega, hn, hbefore⟩

/-! ## Cutting a text at its matches -/

/-- A part of a text that is cut at the matches of a pattern. -/
inductive Segment where
  /-- What stands before, between or behind the matches. -/
  | gap (cs : List Char)
  | found (cs : List Char)
deriving DecidableEq, Repr

def Segment.chars : Segment → List Char
  | .gap cs => cs
  | .found cs => cs

/-- The gap before a match, if there is one. -/
def gapBefore (cs : List Char) : List Segment := if cs = [] then [] else [.gap cs]

/-- Cut a text at its leftmost match, and then what is behind the match, as a text of its own. A
match that takes nothing cuts nothing off; there the cutting ends. -/
def cut (r : Regex) : List Char → List Segment
  | [] => []
  | c :: cs =>
    match r.find? (c :: cs) with
    | some (place, n + 1) =>
      gapBefore ((c :: cs).take place) ++
        .found (((c :: cs).drop place).take (n + 1)) :: cut r ((c :: cs).drop (place + (n + 1)))
    | _ => [.gap (c :: cs)]
termination_by cs => cs.length
decreasing_by
  simp only [List.length_drop, List.length_cons]
  omega

theorem cut_of_find?_none (h : r.find? cs = none) (hne : cs ≠ []) : r.cut cs = [.gap cs] := by
  obtain ⟨c, cs, rfl⟩ := List.exists_cons_of_ne_nil hne
  rw [cut, h]

theorem cut_of_find?_some (h : r.find? cs = some (place, n)) (hn : 0 < n) (hne : cs ≠ []) :
    r.cut cs = gapBefore (cs.take place) ++
      .found ((cs.drop place).take n) :: r.cut (cs.drop (place + n)) := by
  obtain ⟨c, cs, rfl⟩ := List.exists_cons_of_ne_nil hne
  obtain ⟨n, rfl⟩ := Nat.exists_eq_add_one.mpr hn
  rw [cut, h]

theorem flatMap_chars_gapBefore (cs : List Char) : (gapBefore cs).flatMap Segment.chars = cs := by
  unfold gapBefore
  split
  · next h => rw [h]; rfl
  · simp [Segment.chars]

/-- The segments make up the text. -/
theorem flatMap_chars_cut (r : Regex) (cs : List Char) :
    (r.cut cs).flatMap Segment.chars = cs := by
  fun_induction cut r cs with
  | case1 => rfl
  | case2 c cs place n hfind ih =>
    rw [List.flatMap_append, List.flatMap_cons, flatMap_chars_gapBefore, ih, Segment.chars,
      ← List.drop_drop, List.take_append_drop, List.take_append_drop]
  | case3 c cs hfind => simp [Segment.chars]

end WikiMarkup.Regex
