import Mathlib.Data.List.Basic
import WikiMarkup.Proofs.Peg.Frame

/-!
# Readers that keep to their line

A line ends with a line feed at the latest. A reader keeps to its line if what it finds in front of
a line feed is a part of the line, and is the same whatever comes after the line feed. An expression
that only looks ahead may see the line feed, but nothing after it.

A reader that keeps to its line hands the next one a place on the same line. So sequences and
repetitions keep to the line if their parts do.
-/

namespace WikiMarkup.Peg

variable {ρ ν ε : Type} {s : Reader ν} {readers : ρ → Reader ν} {e : Expr ρ ν ε}
  {es : List (Expr ρ ν ε)} {line : List Char}

/-- What the reader finds in front of a line feed does not depend on what comes after it. -/
def Reader.LooksInLine (s : Reader ν) : Prop :=
  ∀ line, '\n' ∉ line → ∃ found : Option (Match ν),
    ∀ rest, (s (line ++ '\n' :: rest)).map Reading.found = found

/-- What the reader finds in front of a line feed is a part of the line, and neither the match nor
the part depends on what comes after the line feed. -/
def Reader.KeepsLine (s : Reader ν) : Prop :=
  ∀ line, '\n' ∉ line → ∃ found : Option (Reading ν), (∀ r ∈ found, line = r.front ++ r.rest) ∧
    ∀ rest, s (line ++ '\n' :: rest) = found.map (.extend ('\n' :: rest))

theorem Reader.KeepsLine.looksInLine (h : s.KeepsLine) : s.LooksInLine := by
  intro line hlf
  obtain ⟨found, -, hfound⟩ := h line hlf
  refine ⟨found.map Reading.found, ?_⟩
  intro rest
  rw [hfound, Option.map_map]
  rfl

/-- A reader keeps to its line if no line feed that follows the text is looked at. -/
theorem Reader.Frames.keepsLine (h : ∀ rest, s.Frames ('\n' :: rest)) (hs : s.Exact) :
    s.KeepsLine := by
  intro line _
  refine ⟨s line, ?_, ?_⟩
  · intro r hr
    exact (hs hr).text
  · intro rest
    exact h rest line

/-- The part of the line behind a reading is without line feeds too. -/
theorem not_mem_rest (hlf : '\n' ∉ line) {r : Reading ν} (h : line = r.front ++ r.rest) :
    '\n' ∉ r.rest := by
  intro hmem
  apply hlf
  rw [h]
  exact List.mem_append_right _ hmem

/-! ## Lookahead and choice -/

theorem Reader.LooksInLine.notAhead (h : (e.read readers).LooksInLine) :
    Reader.KeepsLine ((Expr.notAhead e).read readers) := by
  intro line hlf
  obtain ⟨found, hfound⟩ := h line hlf
  cases found with
  | some m =>
    refine ⟨none, by simp, ?_⟩
    intro rest
    obtain ⟨r, hr, -⟩ := Option.map_eq_some_iff.mp (hfound rest)
    rw [Expr.read, hr]
    rfl
  | none =>
    refine ⟨some ⟨.empty, [], line⟩, by simp, ?_⟩
    intro rest
    rw [Expr.read, Option.map_eq_none_iff.mp (hfound rest)]
    rfl

theorem Reader.LooksInLine.ahead (h : (e.read readers).LooksInLine) :
    Reader.KeepsLine ((Expr.ahead e).read readers) := by
  intro line hlf
  obtain ⟨found, hfound⟩ := h line hlf
  refine ⟨found.map fun m => ⟨{ m with consumed := 0 }, [], line⟩, ?_, ?_⟩
  · intro r hr
    obtain ⟨m, -, rfl⟩ := Option.map_eq_some_iff.mp hr
    rfl
  · intro rest
    rw [Expr.read, ← hfound rest, Option.map_map, Option.map_map]
    rfl

theorem Reader.KeepsLine.firstOf (h : es.Forall fun e => Reader.KeepsLine (e.read readers)) :
    Reader.KeepsLine ((Expr.firstOf es).read readers) := by
  intro line hlf
  show ∃ found : Option (Reading ν), _ ∧ ∀ rest, Expr.readFirst readers es _ = _
  induction es with
  | nil => exact ⟨none, by simp, fun _ => rfl⟩
  | cons e es ih =>
    obtain ⟨hkeeps, hlaters⟩ := (List.forall_cons ..).mp h
    obtain ⟨first, hpart, hfirst⟩ := hkeeps line hlf
    obtain ⟨later, hparts, hlater⟩ := ih hlaters
    refine ⟨first.or later, ?_, ?_⟩
    · intro r hr
      rcases Option.or_eq_some_iff.mp hr with hr | ⟨-, hr⟩
      · exact hpart r hr
      · exact hparts r hr
    · intro rest
      rw [Expr.readFirst_cons, hfirst, hlater, Option.map_or]

theorem Reader.KeepsLine.onMatch (h : Reader.KeepsLine (e.read readers))
    (transform : Transform ν ε) : Reader.KeepsLine ((Expr.onMatch e transform).read readers) := by
  intro line hlf
  obtain ⟨found, hpart, hfound⟩ := h line hlf
  refine ⟨found.map fun r => { r with found := (r.found.transformed transform).1 }, ?_, ?_⟩
  · intro r hr
    obtain ⟨inner, hinner, rfl⟩ := Option.map_eq_some_iff.mp hr
    exact hpart inner hinner
  · intro rest
    rw [Expr.read, hfound, Option.map_map, Option.map_map]
    rfl

/-! ## Sequences and repetitions -/

/-- Expressions in a row stay on the line one after another. -/
theorem Reader.KeepsLine.readEach (h : es.Forall fun e => Reader.KeepsLine (e.read readers))
    (hlf : '\n' ∉ line) :
    ∃ found : Option (Stretch ν), (∀ t ∈ found, line = t.front ++ t.rest) ∧
      ∀ rest, Expr.readEach readers es (line ++ '\n' :: rest) =
        found.map (.extend ('\n' :: rest)) := by
  induction es generalizing line with
  | nil => exact ⟨some (.empty line), by simp [Stretch.empty], fun _ => rfl⟩
  | cons e es ih =>
    obtain ⟨hkeeps, hlaters⟩ := (List.forall_cons ..).mp h
    obtain ⟨first, hpart, hfirst⟩ := hkeeps line hlf
    cases first with
    | none =>
      refine ⟨none, by simp, ?_⟩
      intro rest
      rw [Expr.readEach, hfirst]
      rfl
    | some r =>
      have hline : line = r.front ++ r.rest := hpart r rfl
      obtain ⟨later, hparts, hlater⟩ := ih hlaters (not_mem_rest hlf hline)
      refine ⟨later.map (.cons r), ?_, ?_⟩
      · intro t ht
        obtain ⟨tail, htail, rfl⟩ := Option.map_eq_some_iff.mp ht
        rw [Stretch.cons, List.append_assoc, ← hparts tail htail]
        exact hline
      · intro rest
        have hnext := hlater rest
        rw [Expr.readEach, hfirst]
        simp only [Option.map_some, Option.bind_some, Reading.extend, hnext, Option.map_map]
        rfl

theorem Reader.KeepsLine.sequence (h : es.Forall fun e => Reader.KeepsLine (e.read readers)) :
    Reader.KeepsLine ((Expr.sequence es).read readers) := by
  intro line hlf
  obtain ⟨found, hpart, hfound⟩ := readEach h hlf
  refine ⟨found.map .spanning, ?_, ?_⟩
  · intro r hr
    obtain ⟨t, ht, rfl⟩ := Option.map_eq_some_iff.mp hr
    exact hpart t ht
  · intro rest
    rw [Expr.read, hfound, Option.map_map, Option.map_map]
    rfl

/-- The rounds of a repetition stay on the line one after another, and the last of them is the same
whatever comes after the line feed. -/
theorem Reader.KeepsLine.readRounds (h : s.KeepsLine) (hlf : '\n' ∉ line) :
    ∃ t : Stretch ν, line = t.front ++ t.rest ∧
      ∀ rest, Peg.readRounds s (line ++ '\n' :: rest) = t.extend ('\n' :: rest) := by
  induction hn : line.length using Nat.strongRecOn generalizing line with
  | ind n ih =>
    subst hn
    obtain ⟨found, hpart, hfound⟩ := h line hlf
    cases found with
    | none => exact ⟨.empty line, rfl, fun rest => readRounds_of_none (hfound rest)⟩
    | some r =>
      have hline : line = r.front ++ r.rest := hpart r rfl
      by_cases hlt : r.rest.length < line.length
      · obtain ⟨t, ht, hrounds⟩ := ih _ hlt (not_mem_rest hlf hline) rfl
        refine ⟨.cons r t, ?_, ?_⟩
        · rw [Stretch.cons, List.append_assoc, ← ht]
          exact hline
        · intro rest
          have hlt' : (r.rest ++ '\n' :: rest).length < (line ++ '\n' :: rest).length := by
            simpa using hlt
          rw [Peg.readRounds, hfound]
          simp only [Option.map_some, Reading.extend, if_pos hlt', hrounds]
          rfl
      · refine ⟨.empty line, rfl, ?_⟩
        intro rest
        have hlt' : ¬(r.rest ++ '\n' :: rest).length < (line ++ '\n' :: rest).length := by
          simpa using hlt
        rw [Peg.readRounds, hfound]
        simp only [Option.map_some, Reading.extend, if_neg hlt']
        rfl

theorem Reader.KeepsLine.oneOrMore (h : s.KeepsLine) : KeepsLine (readOneOrMore s) := by
  intro line hlf
  obtain ⟨found, hpart, hfound⟩ := h line hlf
  cases found with
  | none => exact ⟨none, by simp, fun rest => readOneOrMore_of_none (hfound rest)⟩
  | some r =>
    have hline : line = r.front ++ r.rest := hpart r rfl
    obtain ⟨t, ht, hrounds⟩ := h.readRounds (not_mem_rest hlf hline)
    by_cases hfront : r.front = []
    · refine ⟨some ⟨⟨"", 0, none, [r.found]⟩, [], line⟩, by simp, ?_⟩
      intro rest
      rw [readOneOrMore, hfound]
      exact congrArg some (if_pos hfront)
    · refine ⟨some (.spanning (.cons r t)), ?_, ?_⟩
      · intro r' hr'
        cases hr'
        rw [Reading.spanning, Stretch.cons, List.append_assoc, ← ht]
        exact hline
      · intro rest
        rw [readOneOrMore, hfound]
        simp only [Option.map_some, Reading.extend, if_neg hfront, hrounds]
        rfl

/-! ## The text of a match -/

/-- Every match has the text that it consumed. -/
def Reader.Spells (s : Reader ν) : Prop :=
  ∀ ⦃cs r⦄, s cs = some r → r.found.text = String.ofList r.front

namespace Reader

theorem spells_sequence (es : List (Expr ρ ν ε)) :
    Spells ((Expr.sequence es).read readers) := by
  intro cs r hr
  obtain ⟨t, -, rfl⟩ := Option.map_eq_some_iff.mp hr
  rfl

theorem Spells.firstOf (h : es.Forall fun e => Spells (e.read readers)) :
    Spells ((Expr.firstOf es).read readers) := by
  intro cs r hr
  change Expr.readFirst readers es cs = some r at hr
  induction es with
  | nil => cases hr
  | cons e es ih =>
    obtain ⟨hspells, hlaters⟩ := (List.forall_cons ..).mp h
    rw [Expr.readFirst_cons] at hr
    rcases Option.or_eq_some_iff.mp hr with hfirst | ⟨-, hlater⟩
    · exact hspells hfirst
    · exact ih hlaters hlater

/-- A transform leaves the text of a match. -/
theorem Spells.onMatch (h : Spells (e.read readers)) (transform : Transform ν ε) :
    Spells ((Expr.onMatch e transform).read readers) := by
  intro cs r hr
  obtain ⟨inner, hinner, rfl⟩ := Option.map_eq_some_iff.mp hr
  change inner.found.text = String.ofList inner.front
  exact h hinner

end Reader

end WikiMarkup.Peg
