import WikiMarkup.Proofs.Rules.Leaf

/-!
# Links are wiki words

A link consumes two capitalized words or more, run together, and all that there are. Whether there
is a link at the head of a text is decided by its first two words, so a text that goes on still has
its link; and a text that stands between links and delimiters holds no link at any place.
-/

namespace WikiMarkup

open Peg

/-- A capital letter and small letters behind it, one at least. -/
def IsCapWord (word : List Char) : Prop :=
  ∃ c cs, word = c :: cs ∧ ('A' ≤ c ∧ c ≤ 'Z') ∧ cs ≠ [] ∧ ∀ l ∈ cs, 'a' ≤ l ∧ l ≤ 'z'

/-- Capitalized words run together, two at least. -/
def IsWikiWord (cs : List Char) : Prop :=
  ∃ words : List (List Char), 2 ≤ words.length ∧ (∀ word ∈ words, IsCapWord word) ∧
    cs = words.flatten

theorem IsCapWord.letters {word : List Char} (h : IsCapWord word) :
    ∀ c ∈ word, 'A' ≤ c ∧ c ≤ 'Z' ∨ 'a' ≤ c ∧ c ≤ 'z' := by
  obtain ⟨c, cs, rfl, hc, -, hcs⟩ := h
  intro l hl
  rcases List.mem_cons.mp hl with rfl | hl
  · exact .inl hc
  · exact .inr (hcs l hl)

/-- There are only letters in a wiki word. -/
theorem IsWikiWord.letters {cs : List Char} (h : IsWikiWord cs) :
    ∀ c ∈ cs, 'A' ≤ c ∧ c ≤ 'Z' ∨ 'a' ≤ c ∧ c ≤ 'z' := by
  obtain ⟨words, -, hwords, rfl⟩ := h
  intro c hc
  obtain ⟨word, hword, hmem⟩ := List.mem_flatten.mp hc
  exact (hwords word hword).letters c hmem

namespace Rule

variable {c : Char} {cs tail before after : List Char} {r : Reading Node}

/-! ## Capitalized words -/

/-- The small letters behind a capital are one repetition. -/
theorem read_lowercases (cs : List Char) :
    (cs.head?.any lower.contains = false → readOneOrMore lowercase.read cs = none) ∧
    (cs.head?.any lower.contains = true → ∃ m, readOneOrMore lowercase.read cs =
      some ⟨m, cs.takeWhile lower.contains, cs.dropWhile lower.contains⟩) := by
  have hletter : Reader.TakesOne lowercase.read fun cs => cs.head?.any lower.contains := by
    rw [read_lowercase]
    exact takesOne_pattern lower read
  obtain ⟨hfront, hrest⟩ := hletter.readRounds cs
  rw [splitWhile_head] at hfront hrest
  cases cs with
  | nil => exact ⟨fun _ => readOneOrMore_of_none hletter.nil, fun h => by cases h⟩
  | cons c cs =>
    refine ⟨fun h => readOneOrMore_of_none (hletter.stop h), fun h => ?_⟩
    obtain ⟨m, hm, -⟩ := hletter.take h
    rw [readOneOrMore_of_some hletter.exact hm (List.cons_ne_nil c [])]
    simp only [Reading.spanning, hfront, hrest]
    exact ⟨_, rfl⟩

theorem read_capWord_cons (hc : upper.contains c = true)
    (hcs : cs.head?.any lower.contains = true) : ∃ m, capWord.read (c :: cs) =
      some ⟨m, c :: cs.takeWhile lower.contains, cs.dropWhile lower.contains⟩ := by
  have hgo : (c :: cs).head?.any upper.contains = true := hc
  obtain ⟨m, hm, -⟩ := (takesOne_pattern upper read).take hgo
  rw [← read_initialCap] at hm
  obtain ⟨m', hm'⟩ := (read_lowercases cs).2 hcs
  rw [read_capWord]
  simp only [Expr.read, Expr.readEach, hm, hm', Option.bind_some, Option.map_some,
    Reading.spanning, Stretch.cons, Stretch.empty, List.append_nil]
  exact ⟨_, rfl⟩

/-- What a capitalized word is read from. -/
theorem of_read_capWord (h : capWord.read cs = some r) :
    ∃ c rest, cs = c :: rest ∧ upper.contains c = true ∧ rest.head?.any lower.contains = true ∧
      r.front = c :: rest.takeWhile lower.contains ∧ r.rest = rest.dropWhile lower.contains := by
  have hcap : (initialCap.read cs).isSome := by
    rw [read_capWord] at h
    obtain ⟨s, hs, -⟩ := Option.map_eq_some_iff.mp h
    obtain ⟨first, hfirst, -⟩ := Option.bind_eq_some_iff.mp hs
    exact Option.isSome_of_eq_some hfirst
  obtain ⟨first, hfirst⟩ := Option.isSome_iff_exists.mp hcap
  have hfirst' := hfirst
  rw [read_initialCap] at hfirst'
  obtain ⟨c, rest, rfl, hc, hfront, hrest⟩ := (takesOne_pattern upper read).of_eq_some hfirst'
  cases hhead : rest.head?.any lower.contains with
  | false =>
    have hnone := (read_lowercases rest).1 hhead
    rw [← hrest] at hnone
    rw [read_capWord] at h
    simp [Expr.read, Expr.readEach, hfirst, hnone] at h
  | true =>
    obtain ⟨m, hm⟩ := read_capWord_cons hc hhead
    rw [hm] at h
    cases h
    exact ⟨c, rest, rfl, hc, hhead, rfl, rfl⟩

theorem isCapWord_of_read (h : capWord.read cs = some r) : IsCapWord r.front := by
  obtain ⟨c, rest, rfl, hc, hhead, hfront, -⟩ := of_read_capWord h
  refine ⟨c, rest.takeWhile lower.contains, hfront, CharSet.contains_range.mp hc, ?_, ?_⟩
  · cases rest with
    | nil => cases hhead
    | cons l rest =>
      have hl : lower.contains l = true := hhead
      rw [List.takeWhile_cons_of_pos hl]
      exact List.cons_ne_nil l _
  · intro l hl
    exact CharSet.contains_range.mp (List.all_eq_true.mp List.all_takeWhile l hl)

/-- A capitalized word is read as far as it goes, and no further if no small letter follows. -/
theorem exists_read_capWord {word : List Char} (h : IsCapWord word) (tail : List Char) :
    ∃ r, capWord.read (word ++ tail) = some r ∧
      (tail.head?.any lower.contains = false → r.rest = tail) := by
  obtain ⟨c, cs, rfl, hc, hne, hcs⟩ := h
  have hlower : ∀ l ∈ cs, lower.contains l = true := fun l hl =>
    CharSet.contains_range.mpr (hcs l hl)
  have hhead : (cs ++ tail).head?.any lower.contains = true := by
    cases cs with
    | nil => exact absurd rfl hne
    | cons l cs => exact hlower l (List.mem_cons_self ..)
  obtain ⟨m, hm⟩ := read_capWord_cons (CharSet.contains_range.mpr hc) hhead
  refine ⟨_, hm, fun htail => ?_⟩
  have hstop : tail.dropWhile lower.contains = tail := by
    cases tail with
    | nil => rfl
    | cons t tail => exact List.dropWhile_cons_of_neg (ne_true_of_eq_false htail)
  rw [List.dropWhile_append_of_pos hlower, hstop]

/-! ## Links -/

/-- A link is a capitalized word and all those that follow it, one at least. -/
theorem of_read_link (h : link.read cs = some r) : ∃ first, capWord.read cs = some first ∧
    (capWord.read first.rest).isSome ∧
    r.front = first.front ++ (readRounds capWord.read first.rest).front ∧
    r.rest = (readRounds capWord.read first.rest).rest := by
  rw [read_link] at h
  obtain ⟨inner, hinner, rfl⟩ := Option.map_eq_some_iff.mp h
  obtain ⟨s, hs, rfl⟩ := Option.map_eq_some_iff.mp hinner
  obtain ⟨first, hfirst, hmore⟩ := Option.bind_eq_some_iff.mp hs
  obtain ⟨_, hrest, rfl⟩ := Option.map_eq_some_iff.mp hmore
  obtain ⟨rounds, hrounds, hend⟩ := Option.bind_eq_some_iff.mp hrest
  obtain ⟨_, hnil, rfl⟩ := Option.map_eq_some_iff.mp hend
  cases hnil
  refine ⟨first, hfirst, ?_⟩
  cases hsecond : capWord.read first.rest with
  | none =>
    have hnone := readOneOrMore_of_none hsecond
    rw [Expr.read] at hrounds
    simp [Expr.read, hnone] at hrounds
  | some second =>
    have hsome := readOneOrMore_of_some (exact_read capWord) hsecond (progresses_capWord hsecond)
    have heq : rounds = .spanning (readRounds capWord.read first.rest) := by
      simpa [Expr.read, hsome] using hrounds.symm
    subst heq
    simp [Reading.spanning, Stretch.cons, Stretch.empty]

/-- What a link consumes is a wiki word. -/
theorem isWikiWord_of_read_link (h : link.read cs = some r) : IsWikiWord r.front := by
  obtain ⟨first, hfirst, hsecond, hfront, -⟩ := of_read_link h
  obtain ⟨second, hsecond⟩ := Option.isSome_iff_exists.mp hsecond
  obtain ⟨words, hwords, heq⟩ :=
    exists_fronts_readRounds (s := capWord.read) (fun _ _ hr => isCapWord_of_read hr) second.rest
  refine ⟨first.front :: second.front :: words, by simp, ?_, ?_⟩
  · intro word hword
    rcases List.mem_cons.mp hword with rfl | hword
    · exact isCapWord_of_read hfirst
    · rcases List.mem_cons.mp hword with rfl | hword
      · exact isCapWord_of_read hsecond
      · exact hwords word hword
  · rw [hfront, readRounds_of_some (exact_read capWord) hsecond (progresses_capWord hsecond)]
    simp [Stretch.cons, heq]

/-- There is no link right behind a link. -/
theorem read_link_rest (h : link.read cs = some r) : link.read r.rest = none := by
  obtain ⟨first, -, -, -, hrest⟩ := of_read_link h
  have hend : capWord.read r.rest = none := by
    rw [hrest]
    exact progresses_capWord.read_rest_readRounds (exact_read capWord) _
  rw [read_link]
  simp [Expr.read, Expr.readEach, hend]

/-- A text starts with a link exactly if it starts with two capitalized words. -/
theorem isSome_read_link_iff : (link.read cs).isSome ↔
    ∃ first second rest, IsCapWord first ∧ IsCapWord second ∧ cs = first ++ (second ++ rest) := by
  constructor
  · intro h
    obtain ⟨r, hr⟩ := Option.isSome_iff_exists.mp h
    obtain ⟨first, hfirst, hsecond, -, -⟩ := of_read_link hr
    obtain ⟨second, hsecond⟩ := Option.isSome_iff_exists.mp hsecond
    refine ⟨first.front, second.front, second.rest, isCapWord_of_read hfirst,
      isCapWord_of_read hsecond, ?_⟩
    rw [← (exact_read capWord hsecond).text]
    exact (exact_read capWord hfirst).text
  · rintro ⟨first, second, rest, hfirst, hsecond, rfl⟩
    obtain ⟨r, hr, hrest⟩ := exists_read_capWord hfirst (second ++ rest)
    obtain ⟨r', hr', -⟩ := exists_read_capWord hsecond rest
    have hcapital : (second ++ rest).head?.any lower.contains = false := by
      obtain ⟨c, cs, rfl, hc, -, -⟩ := hsecond
      rw [← Bool.not_eq_true]
      intro hlower
      exact Bool.false_ne_true
        ((not_upper_of_lower hlower).symm.trans (CharSet.contains_range.mpr hc))
    rw [← hrest hcapital] at hr'
    have hsome := readOneOrMore_of_some (exact_read capWord) hr' (progresses_capWord hr')
    rw [read_link]
    simp [Expr.read, Expr.readEach, hr, hsome]

/-- A text that goes on keeps its link, so where there is none there is none in the shorter text. -/
theorem read_link_eq_none_of_append (h : link.read (cs ++ tail) = none) : link.read cs = none := by
  rw [← Option.not_isSome_iff_eq_none] at h ⊢
  intro hlink
  obtain ⟨first, second, rest, hfirst, hsecond, rfl⟩ := isSome_read_link_iff.mp hlink
  exact h (isSome_read_link_iff.mpr
    ⟨first, second, rest ++ tail, hfirst, hsecond, by simp [List.append_assoc]⟩)

/-! ## Texts -/

/-- There is no link at any place of a text. -/
theorem read_link_of_text (h : (splitWhile textGoes cs).1 = before ++ after) :
    link.read after = none := by
  by_cases hne : after = []
  · rw [hne]
    exact read_link_of_stops (.inr rfl)
  · have hgo := go_of_splitWhile h hne
    exact read_link_eq_none_of_append (textGoes_iff.mp hgo).2.2

end Rule

end WikiMarkup
