import WikiMarkup.Peg.Grammar
import WikiMarkup.Proofs.Peg.Row

/-!
# Matches tell what was consumed

Whatever the grammar, and also if its rules recur, no application asks for a place off the text, and
a match shows text that stands ahead. It consumed that text, or nothing; and if it consumed nothing
of a text that is not empty, a lookahead found it, and choices, transforms and rules passed it on.
The parts of sequences and repetitions are such matches too, each where the one before it stopped.
-/

namespace WikiMarkup.Peg

variable {ρ ν ε : Type} {p : Parser ν ε} {env : ρ → Parser ν ε} {e body : Expr ρ ν ε}
  {es : List (Expr ρ ν ε)} {c c' : Cursor} {m : Match ν}

/-! ## Places -/

/-- No place off the text is asked for, and behind what a match consumed there is a place. -/
structure Safe (p : Parser ν ε) : Prop where
  not_faults : ∀ c, ¬Faults p c
  exists_advance : ∀ c m, Finds p c m → ∃ c', c.advance m.consumed = .ok c'

/-- A parser that fails or takes characters ahead. -/
def Takes (p : Parser ν ε) : Prop :=
  ∀ c, p c = .ok .fail ∨ ∃ front rest, c.rest = front ++ rest ∧
    p c = .ok (.succeed (.leaf (String.ofList front) (Text.byteSize front)))

theorem takes_any : Takes ((Expr.any : Expr ρ ν ε).run env) := by
  intro c
  rw [Expr.run]
  cases hc : c.rest with
  | nil => exact .inl rfl
  | cons ch rest =>
    refine .inr ⟨[ch], rest, rfl, ?_⟩
    have htake : (take c (Text.byteSize [ch]) : Except Stop (Reply (Option (Match ν)) ε)) =
        .ok (.succeed (Reading.leaf [ch] rest).found) := take_of_rest_eq hc
    simpa [Reading.leaf] using htake

theorem takes_endOfText : Takes ((Expr.endOfText : Expr ρ ν ε).run env) := by
  intro c
  rw [Expr.run]
  split
  · exact .inr ⟨[], c.rest, rfl, rfl⟩
  · exact .inl rfl

theorem takes_literal (text : String) : Takes ((Expr.literal text : Expr ρ ν ε).run env) := by
  intro c
  rw [Expr.run]
  split
  · next htext =>
    obtain ⟨rest, hrest⟩ := List.isPrefixOf_iff_prefix.mp htext
    have htake := take_of_rest_eq (ν := ν) (ε := ε) hrest.symm
    rw [Text.byteSize_toList] at htake
    exact .inr ⟨text.toList, rest, hrest.symm, by rw [htake]; simp [Reading.leaf]⟩
  · exact .inl rfl

theorem takes_pattern (regex : Regex) : Takes ((Expr.pattern regex : Expr ρ ν ε).run env) := by
  intro c
  rw [Expr.run]
  split
  · next length _ =>
    have hrest := (List.take_append_drop length c.rest).symm
    exact .inr ⟨_, _, hrest, take_of_rest_eq hrest⟩
  · exact .inl rfl

theorem Takes.exists_eq_leaf (h : Takes p) (hm : Finds p c m) : ∃ front rest,
    c.rest = front ++ rest ∧ m = .leaf (String.ofList front) (Text.byteSize front) := by
  obtain ⟨events, hm⟩ := hm
  rcases h c with hfail | ⟨front, rest, hrest, htake⟩
  · rw [hfail] at hm
    cases hm
  · rw [htake] at hm
    cases hm
    exact ⟨front, rest, hrest, rfl⟩

theorem Takes.safe (h : Takes p) : Safe p where
  not_faults c := by
    rintro ⟨f, hf⟩
    rcases h c with hfail | ⟨front, rest, -, htake⟩
    · rw [hfail] at hf
      cases hf
    · rw [htake] at hf
      cases hf
  exists_advance c m hm := by
    obtain ⟨front, rest, hrest, rfl⟩ := h.exists_eq_leaf hm
    exact ⟨_, Cursor.advance_of_rest_eq hrest⟩

theorem safe_notAhead (h : Safe (body.run env)) : Safe ((Expr.notAhead body).run env) where
  not_faults c hc := h.not_faults c (faults_notAhead.mp hc)
  exists_advance c m hm := by
    rw [eq_empty_of_finds_notAhead hm]
    exact ⟨c, Cursor.advance_zero c⟩

theorem safe_ahead (h : Safe (body.run env)) : Safe ((Expr.ahead body).run env) where
  not_faults c hc := h.not_faults c (faults_ahead.mp hc)
  exists_advance c m hm := by
    obtain ⟨found, -, rfl⟩ := finds_ahead.mp hm
    exact ⟨c, Cursor.advance_zero c⟩

theorem safe_onMatch (h : Safe (body.run env)) (transform : Transform ν ε) :
    Safe ((Expr.onMatch body transform).run env) where
  not_faults c hc := h.not_faults c (faults_onMatch.mp hc)
  exists_advance c m hm := by
    obtain ⟨found, hfound, rfl⟩ := finds_onMatch.mp hm
    exact h.exists_advance c found hfound

/-- A match up to a place ahead can be made. -/
theorem span_ne_fault {consumed : Nat} {parts : List (Match ν)} {events : List ε}
    (h : c.advance consumed = .ok c') (f : Cursor.Fault) :
    span c consumed parts events ≠ .error (.fault f) := by
  obtain ⟨s, hs⟩ := Cursor.exists_slice_of_advance h
  rw [span, hs]
  simp

theorem safe_sequence (h : ∀ c f, Expr.runEach env es c ≠ .error (.fault f)) :
    Safe ((Expr.sequence es).run env) where
  not_faults c := by
    rintro ⟨f, hf⟩
    rw [Expr.run] at hf
    split at hf
    · next s hs =>
      cases hf
      exact h c f hs
    · cases hf
    · next parts events heach =>
      obtain ⟨c', hrow⟩ := row_of_runEach heach
      rw [← total_eq_foldl] at hf
      exact span_ne_fault hrow.advance f hf
  exists_advance c m hm := (spansRow_sequence hm).exists_advance

theorem repeatFrom_ne_fault (h : Safe p) (c : Cursor) (gathered : Rounds ν) (events : List ε)
    (f : Cursor.Fault) : repeatFrom p c gathered events ≠ .error (.fault f) := by
  fun_induction repeatFrom p c gathered events with
  | case1 c gathered events s hs =>
    intro heq
    cases heq
    exact h.not_faults c ⟨f, hs⟩
  | case2 =>
    intro heq
    cases heq
  | case3 =>
    intro heq
    cases heq
  | case4 c gathered events m new hm hne f' hc =>
    obtain ⟨c', hc'⟩ := h.exists_advance c m ⟨new, hm⟩
    rw [hc'] at hc
    cases hc
  | case5 _ _ _ _ _ _ _ _ _ _ ih => exact ih

theorem safe_zeroOrMore (h : Safe (body.run env)) : Safe ((Expr.zeroOrMore body).run env) where
  not_faults c := by
    rintro ⟨f, hf⟩
    rw [Expr.run, zeroOrMore] at hf
    split at hf
    · next s hs =>
      cases hf
      exact repeatFrom_ne_fault h c _ _ f hs
    · next rounds events hrounds =>
      obtain ⟨ms, c', rfl, hrow, -⟩ := row_of_repeatFrom hrounds
      have hend := hrow.advance
      rw [← Nat.zero_add (total ms)] at hend
      exact span_ne_fault hend f hf
  exists_advance c m hm := (spansRow_zeroOrMore hm).1.exists_advance

theorem safe_oneOrMore (h : Safe (body.run env)) : Safe ((Expr.oneOrMore body).run env) where
  not_faults c := by
    rintro ⟨f, hf⟩
    rw [Expr.run, oneOrMore] at hf
    split at hf
    · next s hs =>
      cases hf
      exact h.not_faults c ⟨f, hs⟩
    · cases hf
    · next first events hfirst =>
      obtain ⟨c', hc'⟩ := h.exists_advance c first ⟨events, hfirst⟩
      rw [hc'] at hf
      split at hf
      · cases hf
      · simp only at hf
        split at hf
        · next s hs =>
          cases hf
          exact repeatFrom_ne_fault h c' _ _ f hs
        · next rounds events hrounds =>
          obtain ⟨ms, c'', rfl, hrow, -⟩ := row_of_repeatFrom hrounds
          exact span_ne_fault (Cursor.advance_trans hc' hrow.advance) f hf
  exists_advance c m hm := (spansRow_oneOrMore hm).1.exists_advance

/-- A choice is safe if its first alternative is and the choice between the others. -/
theorem safe_runFirst_cons (h : Safe (e.run env)) (hes : Safe (Expr.runFirst env es)) :
    Safe (Expr.runFirst env (e :: es)) where
  not_faults c := by
    rintro ⟨f, hf⟩
    rw [Expr.runFirst] at hf
    split at hf
    · next s hs =>
      cases hf
      exact h.not_faults c ⟨f, hs⟩
    · cases hf
    · split at hf
      · next s hs =>
        cases hf
        exact hes.not_faults c ⟨f, hs⟩
      · cases hf
  exists_advance c m := by
    rintro ⟨events, hm⟩
    rw [Expr.runFirst] at hm
    split at hm
    · cases hm
    · next found events hfound =>
      cases hm
      exact h.exists_advance c m ⟨events, hfound⟩
    · split at hm
      · cases hm
      · next found new hfound =>
        cases hm
        exact hes.exists_advance c m ⟨new, hfound⟩

mutual

/-- If the parsers of its rules are safe, so is the run of an expression. -/
theorem Expr.safe_run (henv : ∀ name, Safe (env name)) : ∀ e : Expr ρ ν ε, Safe (e.run env)
  | .any => takes_any.safe
  | .endOfText => takes_endOfText.safe
  | .literal text => (takes_literal text).safe
  | .pattern regex => (takes_pattern regex).safe
  | .notAhead body => safe_notAhead (Expr.safe_run henv body)
  | .ahead body => safe_ahead (Expr.safe_run henv body)
  | .sequence elements => safe_sequence (Expr.runEach_ne_fault henv elements)
  | .firstOf alternatives => Expr.safe_runFirst henv alternatives
  | .zeroOrMore body => safe_zeroOrMore (Expr.safe_run henv body)
  | .oneOrMore body => safe_oneOrMore (Expr.safe_run henv body)
  | .onMatch body transform => safe_onMatch (Expr.safe_run henv body) transform
  | .rule name => henv name

theorem Expr.runEach_ne_fault (henv : ∀ name, Safe (env name)) : ∀ (es : List (Expr ρ ν ε))
    (c : Cursor) (f : Cursor.Fault), Expr.runEach env es c ≠ .error (.fault f)
  | [], _, _ => nofun
  | e :: es, c, f => by
    have hsafe := Expr.safe_run henv e
    intro hc
    rw [Expr.runEach] at hc
    split at hc
    · next s hs =>
      cases hc
      exact hsafe.not_faults c ⟨f, hs⟩
    · cases hc
    · next m events hm =>
      obtain ⟨c', hc'⟩ := hsafe.exists_advance c m ⟨events, hm⟩
      rw [hc'] at hc
      simp only at hc
      split at hc
      · next s hs =>
        cases hc
        exact Expr.runEach_ne_fault henv es c' f hs
      · cases hc

theorem Expr.safe_runFirst (henv : ∀ name, Safe (env name)) :
    ∀ es : List (Expr ρ ν ε), Safe (Expr.runFirst env es)
  | [] => ⟨nofun, nofun⟩
  | e :: es => safe_runFirst_cons (Expr.safe_run henv e) (Expr.safe_runFirst henv es)

end

namespace Grammar

variable {g : Grammar ρ ν ε} {depth : Nat}

/-- However deeply its rules nest, no rule of a grammar asks for a place off the text. -/
theorem safe_rule (g : Grammar ρ ν ε) (depth : Nat) (name : ρ) : Safe (g.parser depth name) := by
  induction depth generalizing name with
  | zero => exact ⟨nofun, nofun⟩
  | succ depth ih => exact Expr.safe_run ih (g.body name)

/-! ## Matches -/

/-- The match is one that a lookahead found, passed on by choices, transforms and rules. -/
inductive FromAhead (g : Grammar ρ ν ε) : Nat → Expr ρ ν ε → Cursor → Match ν → Prop where
  | ahead {depth : Nat} {body : Expr ρ ν ε} {c : Cursor} {m : Match ν} :
    Finds (body.run (g.parser depth)) c m →
    FromAhead g depth (.ahead body) c { m with consumed := 0 }
  | firstOf {depth : Nat} {before after : List (Expr ρ ν ε)} {e : Expr ρ ν ε} {c : Cursor}
    {m : Match ν} : (∀ e' ∈ before, Fails (e'.run (g.parser depth)) c) → FromAhead g depth e c m →
    FromAhead g depth (.firstOf (before ++ e :: after)) c m
  | onMatch {depth : Nat} {body : Expr ρ ν ε} {transform : Transform ν ε} {c : Cursor}
    {m : Match ν} : FromAhead g depth body c m →
    FromAhead g depth (.onMatch body transform) c (m.transformed transform).1
  | rule {depth : Nat} {name : ρ} {c : Cursor} {m : Match ν} : FromAhead g depth (g.body name) c m →
    FromAhead g (depth + 1) (.rule name) c m

/-- The text of the match stands ahead, and all of it was consumed, or nothing. -/
structure IsSound (g : Grammar ρ ν ε) (depth : Nat) (e : Expr ρ ν ε) (c : Cursor) (m : Match ν) :
    Prop where
  text_ahead : m.text.toList <+: c.rest
  consumed : m.consumed = m.text.utf8ByteSize ∨ m.consumed = 0
  fromAhead : m.consumed ≠ m.text.utf8ByteSize → g.FromAhead depth e c m

/-- The parts of the match are sound matches in a row, one for each expression, and consumed as much
as the match did. -/
def HasRow (g : Grammar ρ ν ε) (depth : Nat) (es : List (Expr ρ ν ε)) (c : Cursor) (m : Match ν) :
    Prop :=
  m.consumed = total m.parts ∧
    ∃ c', Row (fun e c part => Finds (e.run (g.parser depth)) c part ∧ g.IsSound depth e c part)
      es c m.parts c'

/-- What the parts of a match of a sequence or a repetition are. -/
def HasParts (g : Grammar ρ ν ε) (depth : Nat) : Expr ρ ν ε → Cursor → Match ν → Prop
  | .sequence es, c, m => g.HasRow depth es c m
  | .zeroOrMore body, c, m =>
    g.HasRow depth (List.replicate m.parts.length body) c m ∧ ∀ part ∈ m.parts, 0 < part.consumed
  | .oneOrMore body, c, m =>
    g.HasRow depth (List.replicate m.parts.length body) c m ∧ m.parts ≠ [] ∧
      ((∀ part ∈ m.parts, 0 < part.consumed) ∨ ∃ first, m.parts = [first] ∧ first.consumed = 0)
  | _, _, _ => True

/-- A match of all that it consumed is sound wherever it comes from. -/
theorem isSound_of_slice (h : c.slice m.consumed = .ok m.text) : g.IsSound depth e c m := by
  obtain ⟨hahead, hsize⟩ := Cursor.eq_of_slice h
  exact ⟨hahead, .inl hsize.symm, fun hne => absurd hsize.symm hne⟩

theorem isSound_of_takes (h : Takes (e.run (g.parser depth)))
    (hm : Finds (e.run (g.parser depth)) c m) : g.IsSound depth e c m := by
  obtain ⟨front, rest, hrest, rfl⟩ := h.exists_eq_leaf hm
  exact isSound_of_slice (Cursor.slice_of_rest_eq hrest)

theorem isSound_notAhead (hm : Finds ((Expr.notAhead body).run (g.parser depth)) c m) :
    g.IsSound depth (.notAhead body) c m := by
  rw [eq_empty_of_finds_notAhead hm]
  exact isSound_of_slice (Cursor.slice_of_rest_eq (List.nil_append c.rest).symm)

theorem isSound_ahead
    (h : ∀ m, Finds (body.run (g.parser depth)) c m → g.IsSound depth body c m)
    (hm : Finds ((Expr.ahead body).run (g.parser depth)) c m) :
    g.IsSound depth (.ahead body) c m := by
  obtain ⟨found, hfound, rfl⟩ := finds_ahead.mp hm
  exact ⟨(h found hfound).text_ahead, .inr rfl, fun _ => .ahead hfound⟩

theorem isSound_onMatch {transform : Transform ν ε}
    (h : ∀ m, Finds (body.run (g.parser depth)) c m → g.IsSound depth body c m)
    (hm : Finds ((Expr.onMatch body transform).run (g.parser depth)) c m) :
    g.IsSound depth (.onMatch body transform) c m := by
  obtain ⟨found, hfound, rfl⟩ := finds_onMatch.mp hm
  have hsound := h found hfound
  exact ⟨hsound.text_ahead, hsound.consumed, fun hne => .onMatch (hsound.fromAhead hne)⟩

theorem isSound_firstOf
    (h : ∀ e ∈ es, ∀ m, Finds (e.run (g.parser depth)) c m → g.IsSound depth e c m)
    (hm : Finds ((Expr.firstOf es).run (g.parser depth)) c m) :
    g.IsSound depth (.firstOf es) c m := by
  obtain ⟨before, e, after, rfl, hbefore, hfinds⟩ := exists_of_finds_runFirst hm
  have hsound := h e (by simp) m hfinds
  exact ⟨hsound.text_ahead, hsound.consumed, fun hne => .firstOf hbefore (hsound.fromAhead hne)⟩

mutual

/-- If what rules find is sound, so is what expressions over them find. -/
theorem isSound_of_rules
    (hrule : ∀ name c m, Finds (g.parser depth name) c m → g.IsSound depth (.rule name) c m) :
    ∀ (e : Expr ρ ν ε) (c : Cursor) (m : Match ν), Finds (e.run (g.parser depth)) c m →
      g.IsSound depth e c m
  | .any, _, _ => isSound_of_takes takes_any
  | .endOfText, _, _ => isSound_of_takes takes_endOfText
  | .literal text, _, _ => isSound_of_takes (takes_literal text)
  | .pattern regex, _, _ => isSound_of_takes (takes_pattern regex)
  | .notAhead _, _, _ => isSound_notAhead
  | .ahead body, c, _ => isSound_ahead (isSound_of_rules hrule body c)
  | .sequence _, _, _ => fun h => isSound_of_slice (spansRow_sequence h).slice
  | .firstOf alternatives, c, _ =>
    isSound_firstOf fun e he => isSound_of_mem hrule alternatives e he c
  | .zeroOrMore _, _, _ => fun h => isSound_of_slice (spansRow_zeroOrMore h).1.slice
  | .oneOrMore _, _, _ => fun h => isSound_of_slice (spansRow_oneOrMore h).1.slice
  | .onMatch body _, c, _ => isSound_onMatch (isSound_of_rules hrule body c)
  | .rule name, c, m => hrule name c m

theorem isSound_of_mem
    (hrule : ∀ name c m, Finds (g.parser depth name) c m → g.IsSound depth (.rule name) c m) :
    ∀ (es : List (Expr ρ ν ε)), ∀ e ∈ es, ∀ (c : Cursor) (m : Match ν),
      Finds (e.run (g.parser depth)) c m → g.IsSound depth e c m
  | [] => List.forall_mem_nil _
  | e :: es => List.forall_mem_cons.mpr ⟨isSound_of_rules hrule e, isSound_of_mem hrule es⟩

end

theorem isSound_of_finds (g : Grammar ρ ν ε) (depth : Nat) :
    ∀ (e : Expr ρ ν ε) (c : Cursor) (m : Match ν), Finds (e.run (g.parser depth)) c m →
      g.IsSound depth e c m := by
  -- Rules may recur, so the depth decides what they find, and not their bodies alone.
  induction depth with
  | zero =>
    refine isSound_of_rules fun name c m hm => ?_
    obtain ⟨events, hm⟩ := hm
    cases hm
  | succ depth ih =>
    refine isSound_of_rules fun name c m hm => ?_
    have hsound := ih (g.body name) c m hm
    exact ⟨hsound.text_ahead, hsound.consumed, fun hne => .rule (hsound.fromAhead hne)⟩

theorem hasRow_of_spansRow (h : SpansRow (g.parser depth) es c m) : g.HasRow depth es c m := by
  obtain ⟨c', hrow⟩ := h.row
  exact ⟨h.consumed, c', hrow.mono fun e c m hm => ⟨hm, g.isSound_of_finds depth e c m hm⟩⟩

/-- An application never ends in a fault, and every match is sound, as are its parts. -/
theorem run_sound (g : Grammar ρ ν ε) (depth : Nat) (e : Expr ρ ν ε) (c : Cursor) :
    ¬Faults (e.run (g.parser depth)) c ∧
      ∀ m, Finds (e.run (g.parser depth)) c m → g.IsSound depth e c m ∧ g.HasParts depth e c m := by
  refine ⟨(Expr.safe_run (g.safe_rule depth) e).not_faults c, fun m hm => ?_⟩
  refine ⟨g.isSound_of_finds depth e c m hm, ?_⟩
  cases e with
  | sequence es => exact hasRow_of_spansRow (spansRow_sequence hm)
  | zeroOrMore body =>
    obtain ⟨hspans, hpos⟩ := spansRow_zeroOrMore hm
    exact ⟨hasRow_of_spansRow hspans, hpos⟩
  | oneOrMore body =>
    obtain ⟨hspans, hrest⟩ := spansRow_oneOrMore hm
    exact ⟨hasRow_of_spansRow hspans, hrest⟩
  | _ => trivial

/-- Brackets in brackets. A bracket may stay open before an accented letter. -/
def brackets : Grammar Unit Unit Empty where
  rules := [()]
  body _ := .sequence [.literal "(", .zeroOrMore (.rule ()),
    .firstOf [.literal ")", .ahead (.literal "é")]]

/-- An open bracket around a closed one. -/
def openBracket : Match Unit :=
  ⟨"(()", 3, none, [.leaf "(" 1,
    ⟨"()", 2, none, [⟨"()", 2, none, [.leaf "(" 1, .empty, .leaf ")" 1]⟩]⟩, .leaf "é" 0]⟩

/-- The text that ends the open bracket is seen and not consumed, so it is no part of the text of
the bracket. -/
theorem run_sound_openBracket :
    Finds ((brackets.body ()).run (brackets.parser 3)) ⟨['é'], "(()é".toList⟩ openBracket ∧
    brackets.IsSound 3 (brackets.body ()) ⟨['é'], "(()é".toList⟩ openBracket ∧
    brackets.HasParts 3 (brackets.body ()) ⟨['é'], "(()é".toList⟩ openBracket := by
  have hrun : (brackets.body ()).run (brackets.parser 3) ⟨['é'], "(()é".toList⟩ =
      .ok ⟨some openBracket, []⟩ := by with_unfolding_all rfl
  have hfinds : Finds ((brackets.body ()).run (brackets.parser 3)) ⟨['é'], "(()é".toList⟩
      openBracket := ⟨[], hrun⟩
  obtain ⟨-, hsound⟩ := run_sound brackets 3 (brackets.body ()) ⟨['é'], "(()é".toList⟩
  exact ⟨hfinds, hsound openBracket hfinds⟩

end Grammar

end WikiMarkup.Peg
