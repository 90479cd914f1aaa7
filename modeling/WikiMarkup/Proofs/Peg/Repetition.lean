import WikiMarkup.Proofs.Peg.Row

/-!
# Laws of repetition

Whatever a parser does, as long as it answers at every place and its matches end at places of the
text, a repetition goes through rounds that consume something and halts where there is no further
round. Both kinds of repetition are described by the same rounds: one or more of them come to one
followed by zero or more, and repeating a repetition once more gathers it as a single round, since
the next round would start where the first halted.
-/

namespace WikiMarkup.Peg

variable {ρ ν ε : Type} {p q : Parser ν ε} {env : ρ → Parser ν ε} {e : Expr ρ ν ε}
  {c c' c'' : Cursor} {m m' : Match ν} {ms : List (Match ν)}

/-! ## Rounds -/

/-- The parser answers at every place, and behind what a match consumed there is a place. -/
structure Answers (p : Parser ν ε) : Prop where
  exists_reply : ∀ c, ∃ reply, p c = .ok reply
  exists_advance : ∀ c m, Finds p c m → ∃ c', c.advance m.consumed = .ok c'

/-- There is no further round: the parser fails, or it consumes nothing. -/
def Halts (p : Parser ν ε) (c : Cursor) : Prop := Fails p c ∨ ∃ m, Finds p c m ∧ m.consumed = 0

/-- The rounds of a repetition from one place to the place at which it halts. -/
inductive Repeats (p : Parser ν ε) : Cursor → List (Match ν) → Cursor → Prop where
  | halt {c : Cursor} : Halts p c → Repeats p c [] c
  | round {c c' c'' : Cursor} {m : Match ν} {ms : List (Match ν)} : Finds p c m → m.consumed ≠ 0 →
    c.advance m.consumed = .ok c' → Repeats p c' ms c'' → Repeats p c (m :: ms) c''

theorem Answers.finds_or_fails (h : Answers p) (c : Cursor) : (∃ m, Finds p c m) ∨ Fails p c := by
  obtain ⟨⟨_ | m, events⟩, hp⟩ := h.exists_reply c
  · exact .inr ⟨events, hp⟩
  · exact .inl ⟨m, events, hp⟩

/-- Every repetition halts, for each of its rounds leaves less text. -/
theorem Answers.exists_repeats (h : Answers p) (c : Cursor) : ∃ ms c', Repeats p c ms c' := by
  induction hn : c.rest.length using Nat.strongRecOn generalizing c with
  | ind n ih =>
    subst hn
    rcases h.finds_or_fails c with ⟨m, hm⟩ | hfail
    · by_cases hzero : m.consumed = 0
      · exact ⟨[], c, .halt (.inr ⟨m, hm, hzero⟩)⟩
      · obtain ⟨c', hc⟩ := h.exists_advance c m hm
        have hlt := Cursor.length_rest_lt_of_advance hc (Nat.pos_of_ne_zero hzero)
        obtain ⟨ms, c'', hrest⟩ := ih _ hlt c' rfl
        exact ⟨m :: ms, c'', .round hm hzero hc hrest⟩
    · exact ⟨[], c, .halt (.inl hfail)⟩

namespace Repeats

theorem halts (h : Repeats p c ms c') : Halts p c' := by
  induction h with
  | halt h => exact h
  | round _ _ _ _ ih => exact ih

theorem advance (h : Repeats p c ms c') : c.advance (total ms) = .ok c' := by
  induction h with
  | halt _ => exact Cursor.advance_zero _
  | round _ _ hc _ ih =>
    rw [total_cons]
    exact Cursor.advance_trans hc ih

/-- Where there is no further round there are none. -/
theorem eq_nil_of_halts (h : Repeats p c ms c') (hc : Halts p c) : ms = [] := by
  cases h with
  | halt _ => rfl
  | round hm hne _ _ =>
    rcases hc with hfail | ⟨m', hm', hzero⟩
    · exact absurd hfail hm.not_fails
    · exact absurd (hm.unique hm' ▸ hzero) hne

theorem repeatFrom_eq (h : Repeats p c ms c') (gathered : Rounds ν) (events : List ε) :
    ∃ more, repeatFrom p c gathered events =
      .ok ⟨⟨ms.reverse ++ gathered.parts, gathered.consumed + total ms⟩, more⟩ := by
  induction h generalizing gathered events with
  | halt hhalt =>
    rcases hhalt with ⟨new, hp⟩ | ⟨m, ⟨new, hp⟩, hzero⟩
    · exact ⟨events ++ new, by rw [repeatFrom, hp]; simp⟩
    · exact ⟨events ++ new, by rw [repeatFrom, hp]; simp [hzero]⟩
  | round hm hne hc _ ih =>
    obtain ⟨new, hm⟩ := hm
    obtain ⟨more, hmore⟩ := ih ⟨_ :: gathered.parts, gathered.consumed + _⟩ (events ++ new)
    refine ⟨more, ?_⟩
    rw [repeatFrom_of_round hm hne hc, hmore]
    simp [Nat.add_assoc]

/-- Zero or more rounds span all rounds. -/
theorem exists_finds_zeroOrMore (h : Repeats p c ms c') : ∃ text, c.slice (total ms) = .ok text ∧
    Finds (zeroOrMore p) c ⟨text, total ms, none, ms⟩ := by
  obtain ⟨events, hrounds⟩ := h.repeatFrom_eq ⟨[], 0⟩ []
  obtain ⟨text, htext⟩ := Cursor.exists_slice_of_advance h.advance
  refine ⟨text, htext, events, ?_⟩
  rw [zeroOrMore, hrounds]
  simp [span, htext]

/-- One or more rounds span the first, also if it consumed nothing, and all rounds behind it. -/
theorem exists_finds_oneOrMore (hm : Finds p c m) (hc : c.advance m.consumed = .ok c')
    (h : Repeats p c' ms c'') : ∃ text, c.slice (total (m :: ms)) = .ok text ∧
      Finds (oneOrMore p) c ⟨text, total (m :: ms), none, m :: ms⟩ := by
  obtain ⟨text, htext⟩ := Cursor.exists_slice_of_advance (Cursor.advance_trans hc h.advance)
  rw [← total_cons] at htext
  refine ⟨text, htext, ?_⟩
  by_cases hzero : m.consumed = 0
  · rw [hzero, Cursor.advance_zero] at hc
    cases hc
    obtain rfl := h.eq_nil_of_halts (.inr ⟨m, hm, hzero⟩)
    have hempty : c.slice 0 = .ok "" := Cursor.slice_of_rest_eq (List.nil_append c.rest).symm
    have htotal : total [m] = 0 := by simp [hzero]
    rw [htotal, hempty] at htext
    cases htext
    obtain ⟨events, hm⟩ := hm
    refine ⟨events, ?_⟩
    rw [oneOrMore, hm, htotal]
    exact if_pos hzero
  · obtain ⟨events, hm⟩ := hm
    obtain ⟨more, hrounds⟩ := h.repeatFrom_eq ⟨[m], m.consumed⟩ events
    refine ⟨more, ?_⟩
    rw [oneOrMore, hm]
    rw [total_cons] at htext ⊢
    simp [hzero, hc, hrounds, span, htext]

/-- A parser that takes all rounds at once has them as its only round, if there are any. -/
theorem exists_repeats_of_finds (h : Repeats p c ms c')
    (hq : total ms ≠ 0 → ∃ m, Finds q c m ∧ m.consumed = total ms) (hend : Halts q c') :
    ∃ qs, Repeats q c qs c' ∧ total qs = total ms := by
  by_cases hzero : total ms = 0
  · have hplace := h.advance
    rw [hzero, Cursor.advance_zero] at hplace
    cases hplace
    exact ⟨[], .halt hend, hzero.symm⟩
  · obtain ⟨m, hm, hconsumed⟩ := hq hzero
    refine ⟨[m], .round hm (hconsumed ▸ hzero) (hconsumed ▸ h.advance) (.halt hend), ?_⟩
    simp [hconsumed]

end Repeats

/-! ## Repetitions of repetitions -/

theorem Halts.zeroOrMore (h : Halts p c) : Halts (zeroOrMore p) c := by
  obtain ⟨text, -, hfinds⟩ := (Repeats.halt h).exists_finds_zeroOrMore
  exact .inr ⟨_, hfinds, rfl⟩

theorem Fails.oneOrMore (h : Fails p c) : Fails (oneOrMore p) c := by
  obtain ⟨events, h⟩ := h
  exact ⟨events, by rw [Peg.oneOrMore, h]⟩

theorem Halts.oneOrMore (h : Halts p c) : Halts (oneOrMore p) c := by
  rcases h with hfail | ⟨m, hm, hzero⟩
  · exact .inl hfail.oneOrMore
  · have hplace : c.advance m.consumed = .ok c := by rw [hzero, Cursor.advance_zero]
    obtain ⟨text, -, hfinds⟩ :=
      Repeats.exists_finds_oneOrMore hm hplace (.halt (.inr ⟨m, hm, hzero⟩))
    exact .inr ⟨_, hfinds, by simp [hzero]⟩

/-- The two matches consumed the same text. -/
def Match.SameSpan (m m' : Match ν) : Prop := m.text = m'.text ∧ m.consumed = m'.consumed

/-- Rounds of two parsers between the same places are spanned by matches of the same text. -/
theorem Repeats.exists_sameSpan {text : String} {qs : List (Match ν)} (h : Repeats q c qs c')
    (htotal : total qs = total ms) (htext : c.slice (total ms) = .ok text) :
    ∃ m, Finds (Peg.zeroOrMore q) c m ∧ m.SameSpan ⟨text, total ms, none, ms⟩ := by
  obtain ⟨text', htext', hfinds⟩ := h.exists_finds_zeroOrMore
  rw [htotal, htext] at htext'
  cases htext'
  exact ⟨_, hfinds, rfl, htotal⟩

variable {text : String} (h : Repeats p c ms c') (htext : c.slice (total ms) = .ok text)

include h htext

theorem Repeats.sameSpan_zeroOrMore_zeroOrMore : ∃ m,
    Finds (Peg.zeroOrMore (Peg.zeroOrMore p)) c m ∧ m.SameSpan ⟨text, total ms, none, ms⟩ := by
  obtain ⟨text', -, hfinds⟩ := h.exists_finds_zeroOrMore
  obtain ⟨qs, hqs, htotal⟩ :=
    h.exists_repeats_of_finds (fun _ => ⟨_, hfinds, rfl⟩) h.halts.zeroOrMore
  exact hqs.exists_sameSpan htotal htext

theorem Repeats.sameSpan_zeroOrMore_oneOrMore : ∃ m,
    Finds (Peg.zeroOrMore (Peg.oneOrMore p)) c m ∧ m.SameSpan ⟨text, total ms, none, ms⟩ := by
  have hfinds : total ms ≠ 0 → ∃ m, Finds (Peg.oneOrMore p) c m ∧ m.consumed = total ms := by
    intro hne
    cases h with
    | halt _ => exact absurd total_nil hne
    | round hm _ hc hrest =>
      obtain ⟨text', -, hfinds⟩ := hrest.exists_finds_oneOrMore hm hc
      exact ⟨_, hfinds, rfl⟩
  obtain ⟨qs, hqs, htotal⟩ := h.exists_repeats_of_finds hfinds h.halts.oneOrMore
  exact hqs.exists_sameSpan htotal htext

theorem Repeats.sameSpan_oneOrMore_zeroOrMore : ∃ m,
    Finds (Peg.oneOrMore (Peg.zeroOrMore p)) c m ∧ m.SameSpan ⟨text, total ms, none, ms⟩ := by
  obtain ⟨text', -, hfinds⟩ := h.exists_finds_zeroOrMore
  obtain ⟨text'', htext'', honce⟩ :=
    Repeats.exists_finds_oneOrMore hfinds h.advance (.halt h.halts.zeroOrMore)
  rw [total_cons, total_nil, Nat.add_zero] at htext''
  rw [htext] at htext''
  cases htext''
  exact ⟨_, honce, rfl, by simp⟩

omit h htext

/-! ## The laws -/

/-- A parser and a repetition behind it span the first match and all rounds. -/
theorem Repeats.exists_finds_sequence (hm : Finds (e.run env) c m)
    (hc : c.advance m.consumed = .ok c') (h : Repeats (e.run env) c' ms c'') :
    ∃ text more, c.slice (total (m :: ms)) = .ok text ∧
      Finds ((Expr.zeroOrMore e).run env) c' more ∧ more.parts = ms ∧
      Finds ((Expr.sequence [e, .zeroOrMore e]).run env) c
        ⟨text, total (m :: ms), none, [m, more]⟩ := by
  obtain ⟨text, htext⟩ := Cursor.exists_slice_of_advance (Cursor.advance_trans hc h.advance)
  rw [← total_cons] at htext
  obtain ⟨text', -, hmore⟩ := h.exists_finds_zeroOrMore
  refine ⟨text, _, htext, hmore, rfl, ?_⟩
  obtain ⟨events, hm⟩ := hm
  obtain ⟨events', hmore⟩ := hmore
  rw [total_cons] at htext ⊢
  exact ⟨events ++ events',
    by simp [Expr.run, Expr.runEach, hm, hc, hmore, h.advance, span, htext]⟩

/-- One or more rounds come to one followed by zero or more. -/
theorem Answers.exists_oneOrMore (h : Answers (e.run env)) (hm : Finds (e.run env) c m) :
    ∃ c' more once both, c.advance m.consumed = .ok c' ∧
      Finds ((Expr.zeroOrMore e).run env) c' more ∧ Finds ((Expr.oneOrMore e).run env) c once ∧
      Finds ((Expr.sequence [e, .zeroOrMore e]).run env) c both ∧ once.SameSpan both ∧
      once.parts = m :: more.parts := by
  obtain ⟨c', hc⟩ := h.exists_advance c m hm
  obtain ⟨ms, c'', hrounds⟩ := h.exists_repeats c'
  obtain ⟨text, htext, honce⟩ := hrounds.exists_finds_oneOrMore hm hc
  obtain ⟨text', more, htext', hmore, rfl, hboth⟩ := hrounds.exists_finds_sequence hm hc
  rw [htext] at htext'
  cases htext'
  exact ⟨c', more, _, _, hc, hmore, honce, hboth, ⟨rfl, rfl⟩, rfl⟩

/-- One or more rounds are found where one is, and come to one followed by zero or more. Zero or
more rounds go on to where there is no further round, and a repetition of a repetition ends as well
and goes no further. -/
theorem repetition_laws (h : Answers (e.run env)) (c : Cursor) :
    ((∃ once, Finds ((Expr.oneOrMore e).run env) c once) ↔ ∃ m, Finds (e.run env) c m) ∧
    (∀ m, Finds (e.run env) c m → ∃ c' more once both, c.advance m.consumed = .ok c' ∧
      Finds ((Expr.zeroOrMore e).run env) c' more ∧ Finds ((Expr.oneOrMore e).run env) c once ∧
      Finds ((Expr.sequence [e, .zeroOrMore e]).run env) c both ∧ once.SameSpan both ∧
      once.parts = m :: more.parts) ∧
    ∃ all c', Finds ((Expr.zeroOrMore e).run env) c all ∧ c.advance all.consumed = .ok c' ∧
      Halts (e.run env) c' ∧
      ∀ nested ∈ [.zeroOrMore (.zeroOrMore e), .zeroOrMore (.oneOrMore e),
          .oneOrMore (.zeroOrMore e)],
        ∃ m, Finds (Expr.run env nested) c m ∧ m.SameSpan all := by
  refine ⟨⟨?_, ?_⟩, fun m hm => h.exists_oneOrMore hm, ?_⟩
  · rintro ⟨once, honce⟩
    rcases h.finds_or_fails c with hfinds | hfail
    · exact hfinds
    · exact absurd hfail.oneOrMore honce.not_fails
  · rintro ⟨m, hm⟩
    obtain ⟨-, -, once, -, -, -, honce, -⟩ := h.exists_oneOrMore hm
    exact ⟨once, honce⟩
  · obtain ⟨ms, c', hrounds⟩ := h.exists_repeats c
    obtain ⟨text, htext, hall⟩ := hrounds.exists_finds_zeroOrMore
    refine ⟨_, c', hall, hrounds.advance, hrounds.halts, ?_⟩
    rw [List.forall_mem_cons, List.forall_mem_cons, List.forall_mem_singleton]
    exact ⟨hrounds.sameSpan_zeroOrMore_zeroOrMore htext,
      hrounds.sameSpan_zeroOrMore_oneOrMore htext, hrounds.sameSpan_oneOrMore_zeroOrMore htext⟩

/-- A parser that agrees with a reader answers at every place. -/
theorem Agrees.answers {s : Reader ν} (h : Agrees p s) (hs : s.Exact) : Answers p where
  exists_reply c := by
    obtain ⟨events, hp⟩ := h c
    exact ⟨_, hp⟩
  exists_advance c m hm := by
    obtain ⟨events, hp⟩ := h c
    obtain ⟨events', hm⟩ := hm
    rw [hp] at hm
    obtain ⟨hfound, -⟩ := Reply.mk.inj (Except.ok.inj hm)
    obtain ⟨r, hr, rfl⟩ := Option.map_eq_some_iff.mp hfound
    exact ⟨_, (hs hr).advance⟩

/-- An accented letter, or nothing where a mark is ahead. -/
def accentOrMark : Expr Empty Unit Empty := .firstOf [.literal "é", .ahead (.literal "!")]

theorem answers_accentOrMark : Answers (accentOrMark.run Empty.rec) := by
  have hagrees : Agrees (accentOrMark.run Empty.rec) (accentOrMark.read Empty.rec) :=
    Expr.run_agrees nofun accentOrMark nofun
  exact hagrees.answers (Expr.exact_read nofun accentOrMark)

/-- The rounds go on to the mark, which is found there without being consumed. -/
theorem repetition_laws_accentOrMark : Answers (accentOrMark.run Empty.rec) ∧
    Finds (accentOrMark.run Empty.rec) (.ofString "éé!") (.leaf "é" 2) ∧
    (∃ once, Finds ((Expr.oneOrMore accentOrMark).run Empty.rec) (.ofString "éé!") once ∧
      once.parts = [.leaf "é" 2, .leaf "é" 2]) ∧
    ∃ m, Finds ((Expr.zeroOrMore (.oneOrMore accentOrMark)).run Empty.rec) (.ofString "éé!") m ∧
      m.text = "éé" ∧ m.consumed = 4 := by
  obtain ⟨-, hfirst, all, -, hall, -, -, hnested⟩ :=
    repetition_laws answers_accentOrMark (.ofString "éé!")
  have hm : Finds (accentOrMark.run Empty.rec) (.ofString "éé!") (.leaf "é" 2) :=
    ⟨[], by with_unfolding_all rfl⟩
  have hmore : Finds ((Expr.zeroOrMore accentOrMark).run Empty.rec) ⟨['é'], ['é', '!']⟩
      ⟨"é", 2, none, [.leaf "é" 2]⟩ := ⟨[], by with_unfolding_all rfl⟩
  have hall' : Finds ((Expr.zeroOrMore accentOrMark).run Empty.rec) (.ofString "éé!")
      ⟨"éé", 4, none, [.leaf "é" 2, .leaf "é" 2]⟩ := ⟨[], by with_unfolding_all rfl⟩
  obtain ⟨c', more, once, -, hc, hmore', honce, -, -, hparts⟩ := hfirst _ hm
  obtain rfl : c' = ⟨['é'], ['é', '!']⟩ := (Except.ok.inj hc).symm
  obtain rfl := hmore'.unique hmore
  obtain rfl := hall.unique hall'
  obtain ⟨m, hm', hspan⟩ := hnested (.zeroOrMore (.oneOrMore accentOrMark)) (by simp)
  exact ⟨answers_accentOrMark, hm, ⟨once, honce, hparts⟩, m, hm', hspan⟩

end WikiMarkup.Peg
