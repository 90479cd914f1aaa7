import WikiMarkup.Proofs.Peg.Agreement

/-!
# Matches in a row

The parts of a sequence, and the rounds of a repetition, are matches in a row: each was found where
the one before it stopped. This is read off the evaluation for any parsers of the rules, so it holds
of grammars that recur as well.
-/

namespace WikiMarkup.Peg

variable {ρ ν ε : Type}

/-- The parser has this match at the place. -/
def Finds (p : Parser ν ε) (c : Cursor) (m : Match ν) : Prop :=
  ∃ events, p c = .ok ⟨some m, events⟩

/-- The parser has no match at the place. -/
def Fails (p : Parser ν ε) (c : Cursor) : Prop := ∃ events, p c = .ok ⟨none, events⟩

/-- The parser asks for a place or a stretch off the text. -/
def Faults (p : Parser ν ε) (c : Cursor) : Prop := ∃ f, p c = .error (.fault f)

theorem Finds.unique {p : Parser ν ε} {c : Cursor} {m m' : Match ν} (h : Finds p c m)
    (h' : Finds p c m') : m = m' := by
  obtain ⟨events, h⟩ := h
  obtain ⟨events', h'⟩ := h'
  rw [h] at h'
  cases h'
  rfl

theorem Finds.not_fails {p : Parser ν ε} {c : Cursor} {m : Match ν} (h : Finds p c m) :
    ¬Fails p c := by
  obtain ⟨events, h⟩ := h
  rintro ⟨events', h'⟩
  rw [h] at h'
  cases h'

/-- Matches in a row from one place to another, one for each expression. Each has the property `P`
where it stands, and the next one stands where the bytes that it consumed end. -/
inductive Row (P : Expr ρ ν ε → Cursor → Match ν → Prop) :
    List (Expr ρ ν ε) → Cursor → List (Match ν) → Cursor → Prop where
  | nil {c : Cursor} : Row P [] c [] c
  | cons {e : Expr ρ ν ε} {es : List (Expr ρ ν ε)} {c c' c'' : Cursor} {m : Match ν}
    {ms : List (Match ν)} : P e c m → c.advance m.consumed = .ok c' → Row P es c' ms c'' →
    Row P (e :: es) c (m :: ms) c''

/-- The bytes that matches consumed. -/
def total (ms : List (Match ν)) : Nat := (ms.map Match.consumed).sum

@[simp] theorem total_nil : total ([] : List (Match ν)) = 0 := rfl

@[simp] theorem total_cons (m : Match ν) (ms : List (Match ν)) :
    total (m :: ms) = m.consumed + total ms := by
  simp [total]

theorem total_eq_foldl (ms : List (Match ν)) :
    total ms = ms.foldl (fun n m => n + m.consumed) 0 := by
  rw [total, List.sum_eq_foldl, List.foldl_map]

variable {P Q : Expr ρ ν ε → Cursor → Match ν → Prop} {env : ρ → Parser ν ε}
  {e body : Expr ρ ν ε} {es : List (Expr ρ ν ε)} {c c' : Cursor} {m : Match ν} {ms : List (Match ν)}

theorem Row.mono (h : Row P es c ms c') (hPQ : ∀ e c m, P e c m → Q e c m) : Row Q es c ms c' := by
  induction h with
  | nil => exact .nil
  | cons hm hc _ ih => exact .cons (hPQ _ _ _ hm) hc ih

/-- The bytes of a row are those between its two places. -/
theorem Row.advance (h : Row P es c ms c') : c.advance (total ms) = .ok c' := by
  induction h with
  | nil => exact Cursor.advance_zero _
  | cons _ hc _ ih =>
    rw [total_cons]
    exact Cursor.advance_trans hc ih

/-! ## What is found -/

theorem eq_of_span {consumed : Nat} {events new : List ε}
    (h : span c consumed ms events = .ok ⟨some m, new⟩) :
    c.slice consumed = .ok m.text ∧ m.consumed = consumed ∧ m.parts = ms := by
  unfold span at h
  split at h
  · next s hs =>
    cases h
    exact ⟨hs, rfl, rfl⟩
  · cases h

/-- The parts of a sequence are what its elements find one after another. -/
theorem row_of_runEach {events : List ε} (h : Expr.runEach env es c = .ok ⟨some ms, events⟩) :
    ∃ c', Row (fun e => Finds (e.run env)) es c ms c' := by
  induction es generalizing c ms events with
  | nil =>
    cases h
    exact ⟨c, .nil⟩
  | cons e es ih =>
    rw [Expr.runEach] at h
    split at h
    · cases h
    · cases h
    · next m events he =>
      split at h
      · cases h
      · next c' hc =>
        split at h
        · cases h
        · next parts new hrest =>
          obtain ⟨hparts, -⟩ := Reply.mk.inj (Except.ok.inj h)
          obtain ⟨ms, rfl, rfl⟩ := Option.map_eq_some_iff.mp hparts
          obtain ⟨c'', hrow⟩ := ih hrest
          exact ⟨c'', .cons ⟨events, he⟩ hc hrow⟩

/-- A repetition gathers a row of rounds, each of which consumed something. -/
theorem row_of_repeatFrom {gathered rounds : Rounds ν} {events new : List ε}
    (h : repeatFrom (body.run env) c gathered events = .ok ⟨rounds, new⟩) :
    ∃ ms c', rounds = ⟨ms.reverse ++ gathered.parts, gathered.consumed + total ms⟩ ∧
      Row (fun e => Finds (e.run env)) (List.replicate ms.length body) c ms c' ∧
      ∀ m ∈ ms, 0 < m.consumed := by
  fun_induction repeatFrom (body.run env) c gathered events with
  | case1 => cases h
  | case2 c =>
    cases h
    exact ⟨[], c, rfl, .nil, List.forall_mem_nil _⟩
  | case3 c =>
    cases h
    exact ⟨[], c, rfl, .nil, List.forall_mem_nil _⟩
  | case4 => cases h
  | case5 c gathered events m new' hm hne c' hc _ ih =>
    obtain ⟨ms, c'', rfl, hrow, hpos⟩ := ih h
    refine ⟨m :: ms, c'', ?_, .cons ⟨new', hm⟩ hc hrow, ?_⟩
    · simp [Nat.add_assoc]
    · exact List.forall_mem_cons.mpr ⟨Nat.pos_of_ne_zero hne, hpos⟩

/-- A match of all that a row consumed, with the row as its parts. -/
structure SpansRow (env : ρ → Parser ν ε) (es : List (Expr ρ ν ε)) (c : Cursor) (m : Match ν) :
    Prop where
  slice : c.slice m.consumed = .ok m.text
  consumed : m.consumed = total m.parts
  row : ∃ c', Row (fun e => Finds (e.run env)) es c m.parts c'

theorem SpansRow.exists_advance (h : SpansRow env es c m) :
    ∃ c', c.advance m.consumed = .ok c' := by
  obtain ⟨c', hrow⟩ := h.row
  exact ⟨c', h.consumed ▸ hrow.advance⟩

theorem spansRow_sequence (h : Finds ((Expr.sequence es).run env) c m) : SpansRow env es c m := by
  obtain ⟨events, h⟩ := h
  rw [Expr.run] at h
  split at h
  · cases h
  · cases h
  · next parts new heach =>
    obtain ⟨hslice, hconsumed, rfl⟩ := eq_of_span h
    rw [← total_eq_foldl] at hslice hconsumed
    exact ⟨by rw [hconsumed, hslice], hconsumed, row_of_runEach heach⟩

theorem spansRow_zeroOrMore (h : Finds ((Expr.zeroOrMore body).run env) c m) :
    SpansRow env (List.replicate m.parts.length body) c m ∧
      ∀ part ∈ m.parts, 0 < part.consumed := by
  obtain ⟨events, h⟩ := h
  rw [Expr.run, zeroOrMore] at h
  split at h
  · cases h
  · next rounds new hrounds =>
    obtain ⟨ms, c', rfl, hrow, hpos⟩ := row_of_repeatFrom hrounds
    obtain ⟨hslice, hconsumed, hparts⟩ := eq_of_span h
    obtain rfl : m.parts = ms := by simpa using hparts
    rw [Nat.zero_add] at hconsumed
    exact ⟨⟨by simpa [hconsumed] using hslice, hconsumed, c', hrow⟩, hpos⟩

/-- A round that consumes nothing is gathered only if it is the first. -/
theorem spansRow_oneOrMore (h : Finds ((Expr.oneOrMore body).run env) c m) :
    SpansRow env (List.replicate m.parts.length body) c m ∧ m.parts ≠ [] ∧
      ((∀ part ∈ m.parts, 0 < part.consumed) ∨
        ∃ first, m.parts = [first] ∧ first.consumed = 0) := by
  obtain ⟨events, h⟩ := h
  rw [Expr.run, oneOrMore] at h
  split at h
  · cases h
  · cases h
  · next first new hfirst =>
    split at h
    · next hzero =>
      cases h
      have hrow : Row (fun e => Finds (e.run env)) [body] c [first] c :=
        .cons ⟨_, hfirst⟩ (by rw [hzero, Cursor.advance_zero]) .nil
      refine ⟨⟨?_, by simp [hzero], c, hrow⟩, List.cons_ne_nil first [], .inr ⟨first, rfl, hzero⟩⟩
      exact Cursor.slice_of_rest_eq (List.nil_append c.rest).symm
    · next hne =>
      split at h
      · cases h
      · next c' hc =>
        split at h
        · cases h
        · next rounds more hrounds =>
          obtain ⟨ms, c'', rfl, hrow, hpos⟩ := row_of_repeatFrom hrounds
          obtain ⟨hslice, hconsumed, hparts⟩ := eq_of_span h
          have hcons : m.parts = first :: ms := by simpa using hparts
          rw [hcons]
          refine ⟨⟨hconsumed ▸ hslice, ?_, c'', ?_⟩, List.cons_ne_nil first ms, .inl ?_⟩
          · rw [hconsumed, hcons, total_cons]
          · rw [hcons]
            exact .cons ⟨new, hfirst⟩ hc hrow
          · exact List.forall_mem_cons.mpr ⟨Nat.pos_of_ne_zero hne, hpos⟩

theorem eq_empty_of_finds_notAhead (h : Finds ((Expr.notAhead body).run env) c m) :
    m = .empty := by
  obtain ⟨events, h⟩ := h
  rw [Expr.run] at h
  split at h
  · cases h
  · cases h
  · cases h
    rfl

theorem finds_ahead : Finds ((Expr.ahead body).run env) c m ↔
    ∃ found, Finds (body.run env) c found ∧ m = { found with consumed := 0 } := by
  unfold Finds
  rw [Expr.run]
  split <;> next hbody => simp [hbody, eq_comm]

theorem finds_onMatch {transform : Transform ν ε} :
    Finds ((Expr.onMatch body transform).run env) c m ↔
      ∃ found, Finds (body.run env) c found ∧ m = (found.transformed transform).1 := by
  unfold Finds
  rw [Expr.run]
  split <;> next hbody => simp [hbody, eq_comm]

/-- The first alternative that does not fail decides. -/
theorem exists_of_finds_runFirst (h : Finds (Expr.runFirst env es) c m) :
    ∃ before e after, es = before ++ e :: after ∧ (∀ e' ∈ before, Fails (e'.run env) c) ∧
      Finds (e.run env) c m := by
  obtain ⟨events, h⟩ := h
  induction es generalizing events with
  | nil => cases h
  | cons e es ih =>
    rw [Expr.runFirst] at h
    split at h
    · cases h
    · next m events he =>
      cases h
      exact ⟨[], e, es, rfl, List.forall_mem_nil _, events, he⟩
    · next events he =>
      split at h
      · cases h
      · next found new hrest =>
        cases h
        obtain ⟨before, e', after, rfl, hbefore, hfinds⟩ := ih _ hrest
        exact ⟨e :: before, e', after, rfl,
          List.forall_mem_cons.mpr ⟨⟨events, he⟩, hbefore⟩, hfinds⟩

/-! ## Faults -/

theorem faults_notAhead : Faults ((Expr.notAhead body).run env) c ↔ Faults (body.run env) c := by
  unfold Faults
  rw [Expr.run]
  split <;> next hbody => simp [hbody]

theorem faults_ahead : Faults ((Expr.ahead body).run env) c ↔ Faults (body.run env) c := by
  unfold Faults
  rw [Expr.run]
  split <;> next hbody => simp [hbody]

theorem faults_onMatch {transform : Transform ν ε} :
    Faults ((Expr.onMatch body transform).run env) c ↔ Faults (body.run env) c := by
  unfold Faults
  rw [Expr.run]
  split <;> next hbody => simp [hbody]

end WikiMarkup.Peg
