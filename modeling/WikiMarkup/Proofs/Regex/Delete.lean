import WikiMarkup.Proofs.Regex.Greedy

/-!
# Deleting matches

What is left of a text without the matches of a pattern. If the start of the text is a place like
any other and no match is empty, deleting goes through the text from place to place: where there is
no match a character is kept, and a match is passed over.
-/

namespace WikiMarkup.Regex

variable {r b : Regex} {set : CharSet} {atStart : Bool} {c : Char} {cs : List Char} {k n : Nat}

/-! ## Any number of characters of a set -/

theorem head?_rounds_chars (set : CharSet) (cs : List Char) :
    (rounds ((chars set).lengths false) cs).head? = some (cs.takeWhile set.contains).length := by
  induction cs with
  | nil =>
    rw [rounds]
    rfl
  | cons c cs ih =>
    rw [rounds_cons, head?_eraseDups]
    cases hc : set.contains c with
    | false => simp [lengths, hc]
    | true => simp [lengths, hc, ih, Nat.add_comm]

/-- As many of the characters are taken as there are. -/
theorem preferred?_star_chars :
    (star (.chars set)).preferred? atStart cs = some (cs.takeWhile set.contains).length := by
  have hplus : (plus (.chars set)).preferred? atStart cs =
      if cs.head?.any set.contains then some (cs.takeWhile set.contains).length else none := by
    rw [preferred?, lengths, head?_eraseDups]
    cases cs with
    | nil => rfl
    | cons c cs =>
      cases hc : set.contains c with
      | false => simp [lengths, hc]
      | true => simp [lengths, hc, head?_rounds_chars, Nat.add_comm]
  have halt : (star (.chars set)).preferred? atStart cs =
      ((plus (.chars set)).preferred? atStart cs).or (some 0) := by
    rw [preferred?, star, lengths, head?_eraseDups, List.head?_append]
    rfl
  rw [halt, hplus]
  split
  · rfl
  · next hhead =>
    cases cs with
    | nil => rfl
    | cons c cs =>
      have hc : set.contains c = false := eq_false_of_ne_true hhead
      rw [List.takeWhile_cons_of_neg (ne_true_of_eq_false hc)]
      rfl

theorem le_of_mem_lengths_star_chars (h : k ∈ (star (.chars set)).lengths atStart cs) :
    k ≤ (cs.takeWhile set.contains).length := by
  rw [star, lengths, List.mem_eraseDups, List.mem_append] at h
  rcases h with h | h
  · exact le_of_mem_lengths_plus_chars h
  · obtain rfl := List.mem_singleton.mp h
    exact Nat.zero_le _

/-- It is of no use to take fewer of the characters if what follows starts with none of them. -/
theorem commits_star_chars
    (h : ∀ atStart cs, cs.head?.any set.contains = true → b.lengths atStart cs = []) :
    Commits (star (.chars set)) b := by
  intro atStart cs k hk hnext j hj
  rw [preferred?_star_chars] at hk
  obtain rfl := Option.some.inj hk
  rcases Nat.lt_or_eq_of_le (le_of_mem_lengths_star_chars hj) with hlt | rfl
  · exact h _ _ (head?_drop_of_lt hlt)
  · exact hnext

/-! ## Deleting -/

/-- What is kept of a segment: the gaps. -/
def Segment.kept : Segment → List Char
  | .gap cs => cs
  | .found _ => []

/-- What is left of a text without the matches. -/
def deleteAll (r : Regex) (cs : List Char) : List Char := (r.cut cs).flatMap Segment.kept

@[simp] theorem deleteAll_nil (r : Regex) : r.deleteAll [] = [] := by
  rw [deleteAll, cut]
  rfl

theorem flatMap_kept_gapBefore (cs : List Char) : (gapBefore cs).flatMap Segment.kept = cs := by
  unfold gapBefore
  split
  · next h => rw [h]; rfl
  · simp [Segment.kept]

/-- The start of the text is a place like any other, and there are no empty matches. -/
structure IsLocal (r : Regex) : Prop where
  start : ∀ atStart cs, r.preferred? atStart cs = r.preferred? false cs
  nil : r.preferred? false [] = none
  pos : ∀ cs, r.preferred? false cs ≠ some 0

namespace IsLocal

/-- Behind a place without a match the search goes on as if the text started there. -/
theorem find?_cons (hr : r.IsLocal) (h : r.preferred? false (c :: cs) = none) :
    r.find? (c :: cs) = (r.find? cs).map fun found => (found.1 + 1, found.2) := by
  ext ⟨place, n⟩
  rw [find?_eq_some_iff, Option.map_eq_some_iff]
  cases place with
  | zero =>
    rw [isLeftmost_zero_iff, hr.start, h]
    simp
  | succ place =>
    rw [isLeftmost_succ_iff, hr.start]
    constructor
    · rintro ⟨-, hle, hn, hbefore⟩
      refine ⟨(place, n), find?_eq_some_iff.mpr ⟨hle, ?_, ?_⟩, rfl⟩
      · rw [hr.start, hn]
      · intro j hj
        rw [hr.start, hbefore j hj]
    · rintro ⟨⟨place', n'⟩, hfound, heq⟩
      cases heq
      obtain ⟨hle, hn, hbefore⟩ := find?_eq_some_iff.mp hfound
      rw [hr.start] at hn
      refine ⟨h, hle, hn, ?_⟩
      intro j hj
      rw [← hr.start (j == 0), hbefore j hj]

/-- A match at the start is passed over. -/
theorem deleteAll_of_some (hr : r.IsLocal) (h : r.preferred? false cs = some n) :
    r.deleteAll cs = r.deleteAll (cs.drop n) := by
  have hne : cs ≠ [] := by
    rintro rfl
    rw [hr.nil] at h
    cases h
  have hpos : 0 < n := Nat.pos_of_ne_zero fun hzero => hr.pos cs (hzero ▸ h)
  have hfind : r.find? cs = some (0, n) := find?_of_preferred? (hr.start true cs ▸ h)
  rw [deleteAll, cut_of_find?_some hfind hpos hne, List.flatMap_append, flatMap_kept_gapBefore,
    Nat.zero_add]
  rfl

/-- A character at which there is no match is kept. -/
theorem deleteAll_of_none (hr : r.IsLocal) (h : r.preferred? false (c :: cs) = none) :
    r.deleteAll (c :: cs) = c :: r.deleteAll cs := by
  have hfind := hr.find?_cons h
  have hcons : c :: cs ≠ [] := List.cons_ne_nil c cs
  cases hrest : r.find? cs with
  | none =>
    rw [hrest, Option.map_none] at hfind
    rw [deleteAll, cut_of_find?_none hfind hcons]
    by_cases hnil : cs = []
    · subst hnil
      rw [deleteAll_nil]
      rfl
    · rw [deleteAll, cut_of_find?_none hrest hnil]
      rfl
  | some found =>
    obtain ⟨place, n⟩ := found
    have hn := (find?_eq_some_iff.mp hrest).preferred
    rw [hr.start] at hn
    have hne : cs ≠ [] := by
      rintro rfl
      rw [List.drop_nil, hr.nil] at hn
      cases hn
    have hpos : 0 < n := Nat.pos_of_ne_zero fun hzero => hr.pos _ (hzero ▸ hn)
    rw [hrest, Option.map_some] at hfind
    rw [deleteAll, cut_of_find?_some hfind hpos hcons, List.flatMap_append, flatMap_kept_gapBefore,
      deleteAll, cut_of_find?_some hrest hpos hne, List.flatMap_append, flatMap_kept_gapBefore,
      Nat.add_right_comm]
    rfl

end IsLocal

end WikiMarkup.Regex
