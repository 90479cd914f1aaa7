import WikiMarkup.Peg.Grammar
import WikiMarkup.Proofs.Peg.Reading

/-!
# Runs agree with readings

A parser agrees with a reader if at every cursor it answers with the match that the reader finds in
the text ahead, without a stop. `Expr.run_agrees` passes agreement from the rules of a grammar to
its expressions.

For a grammar whose rules do not recur, ranks of the rules bound how deeply they nest, so the
parser of every rule agrees with one reader. `Grammar.Ranked.read_eq` is the equation by which a
rule may be unfolded, and no depth is left in it.
-/

namespace WikiMarkup.Peg

variable {ρ ν ε : Type} {readers : ρ → Reader ν}

/-- At every cursor the parser answers with the match that the reader finds in the text ahead, and
does not stop. -/
def Agrees (p : Parser ν ε) (s : Reader ν) : Prop :=
  ∀ c, ∃ events, p c = .ok ⟨(s c.rest).map Reading.found, events⟩

/-- A parser determines the reader that it agrees with. -/
theorem Agrees.unique {p : Parser ν ε} {s s' : Reader ν} (h : Agrees p s) (h' : Agrees p s')
    (hs : s.Exact) (hs' : s'.Exact) : s = s' := by
  funext cs
  obtain ⟨events, hp⟩ := h ⟨[], cs⟩
  obtain ⟨events', hp'⟩ := h' ⟨[], cs⟩
  have hfound : (s cs).map Reading.found = (s' cs).map Reading.found :=
    (Reply.mk.inj (Except.ok.inj (hp.symm.trans hp'))).1
  cases hr : s cs with
  | none =>
    rw [hr, Option.map_none] at hfound
    exact (Option.map_eq_none_iff.mp hfound.symm).symm
  | some r =>
    rw [hr, Option.map_some] at hfound
    obtain ⟨r', hr', hsame⟩ := Option.map_eq_some_iff.mp hfound.symm
    rw [hr']
    -- The bytes that the match counts fix where the text is cut.
    have hcut := hs hr
    have hcut' := hs' hr'
    have hsplit := Text.splitBytes_append [] r.front r.rest
    rw [← hcut.text, ← hcut.consumed, ← hsame, hcut'.consumed, hcut'.text,
      Text.splitBytes_append] at hsplit
    obtain ⟨found, front, rest⟩ := r
    obtain ⟨found', front', rest'⟩ := r'
    simp_all

theorem take_of_rest_eq {c : Cursor} {front rest : List Char} (h : c.rest = front ++ rest) :
    (take c (Text.byteSize front) : Except Stop (Reply (Option (Match ν)) ε)) =
      .ok (.succeed (Reading.leaf front rest).found) := by
  rw [take, Cursor.slice_of_rest_eq h]
  rfl

/-- The cursor moves behind what a reading consumed. -/
theorem Reading.IsCut.advance {r : Reading ν} {c : Cursor} (h : r.IsCut c.rest) :
    c.advance r.found.consumed = .ok ⟨r.front.reverse ++ c.behind, r.rest⟩ := by
  rw [h.consumed, Cursor.advance_of_rest_eq h.text]

theorem span_of_isCut {c : Cursor} {s : Stretch ν} (h : s.IsCut c.rest) (consumed : Nat)
    (parts : List (Match ν)) (events : List ε) (hconsumed : consumed = Text.byteSize s.front)
    (hparts : parts = s.parts) :
    span c consumed parts events = .ok ⟨some (Reading.spanning s).found, events⟩ := by
  subst hconsumed hparts
  rw [span, Cursor.slice_of_rest_eq h.text]
  rfl

/-- One more round of a repetition. -/
theorem repeatFrom_of_round {p : Parser ν ε} {c c' : Cursor} {m : Match ν} {new : List ε}
    (hm : p c = .ok ⟨some m, new⟩) (hne : m.consumed ≠ 0) (hc : c.advance m.consumed = .ok c')
    (gathered : Rounds ν) (events : List ε) : repeatFrom p c gathered events =
      repeatFrom p c' ⟨m :: gathered.parts, gathered.consumed + m.consumed⟩ (events ++ new) := by
  rw [repeatFrom, hm]
  simp only [dif_neg hne]
  split
  · next hfault => rw [hc] at hfault; cases hfault
  · next hnext =>
    rw [hc] at hnext
    cases hnext
    rfl

/-- Rounds of a parser are gathered in reverse, before those that were gathered already. -/
theorem repeatFrom_agrees {p : Parser ν ε} {s : Reader ν} (h : Agrees p s) (hs : s.Exact)
    (cs : List Char) (c : Cursor) (hc : c.rest = cs) (gathered : Rounds ν) (events : List ε) :
    ∃ more, repeatFrom p c gathered events =
      .ok ⟨⟨(readRounds s cs).parts.reverse ++ gathered.parts,
        gathered.consumed + Text.byteSize (readRounds s cs).front⟩, more⟩ := by
  obtain ⟨new, hp⟩ := h c
  fun_induction readRounds s cs generalizing c gathered events new with
  | case1 cs hnone =>
    rw [hc, hnone] at hp
    rw [repeatFrom, hp]
    exact ⟨events ++ new, by simp [Stretch.empty]⟩
  | case2 cs r hr hlt ih =>
    subst hc
    have hcut := hs hr
    have hne : r.found.consumed ≠ 0 := by
      rw [Ne, hcut.consumed_eq_zero_iff]
      exact hcut.length_lt_iff.mp hlt
    rw [hr] at hp
    obtain ⟨events', hp'⟩ := h ⟨r.front.reverse ++ c.behind, r.rest⟩
    obtain ⟨more, hmore⟩ := ih _ rfl ⟨r.found :: gathered.parts,
      gathered.consumed + r.found.consumed⟩ (events ++ new) events' hp'
    refine ⟨more, ?_⟩
    rw [repeatFrom_of_round hp hne hcut.advance, hmore]
    simp [Stretch.cons, hcut.consumed, Nat.add_assoc]
  | case3 cs r hr hnlt =>
    subst hc
    have hcut := hs hr
    have hzero : r.found.consumed = 0 := by
      rw [hcut.consumed_eq_zero_iff, ← Decidable.not_not (p := r.front = []), ← Ne,
        ← hcut.length_lt_iff]
      exact hnlt
    rw [hr] at hp
    refine ⟨events ++ new, ?_⟩
    rw [repeatFrom, hp]
    simp [hzero, Stretch.empty]

theorem Agrees.zeroOrMore {p : Parser ν ε} {s : Reader ν} (h : Agrees p s) (hs : s.Exact) :
    Agrees (zeroOrMore p) (fun cs => some (.spanning (readRounds s cs))) := by
  intro c
  obtain ⟨events, hrounds⟩ := repeatFrom_agrees h hs c.rest c rfl ⟨[], 0⟩ []
  refine ⟨events, ?_⟩
  rw [Peg.zeroOrMore, hrounds]
  exact span_of_isCut (readRounds_isCut hs c.rest) _ _ events (by simp) (by simp)

theorem Agrees.oneOrMore {p : Parser ν ε} {s : Reader ν} (h : Agrees p s) (hs : s.Exact) :
    Agrees (oneOrMore p) (readOneOrMore s) := by
  intro c
  obtain ⟨events, hp⟩ := h c
  rw [Peg.oneOrMore, hp, readOneOrMore]
  cases hr : s c.rest with
  | none => exact ⟨events, rfl⟩
  | some r =>
    have hcut := hs hr
    by_cases hfront : r.front = []
    · have hzero := hcut.consumed_eq_zero_iff.mpr hfront
      exact ⟨events, by simp [hzero, hfront]⟩
    · have hne : r.found.consumed ≠ 0 := by rwa [Ne, hcut.consumed_eq_zero_iff]
      obtain ⟨more, hrounds⟩ := repeatFrom_agrees h hs r.rest
        ⟨r.front.reverse ++ c.behind, r.rest⟩ rfl ⟨[r.found], r.found.consumed⟩ events
      refine ⟨more, ?_⟩
      simp only [Option.map_some, if_neg hne, if_neg hfront, hcut.advance, hrounds]
      have hspan := Stretch.IsCut.cons hcut (readRounds_isCut hs r.rest)
      exact span_of_isCut hspan _ _ more (by simp [Stretch.cons, hcut.consumed])
        (by simp [Stretch.cons])

mutual

/-- The rules that an expression refers to. -/
def Expr.rules : Expr ρ ν ε → List ρ
  | .any | .endOfText | .literal _ | .pattern _ => []
  | .notAhead body | .ahead body | .zeroOrMore body | .oneOrMore body => body.rules
  | .onMatch body _ => body.rules
  | .sequence es | .firstOf es => Expr.rulesOfAll es
  | .rule name => [name]

/-- The rules that any of several expressions refers to. -/
def Expr.rulesOfAll : List (Expr ρ ν ε) → List ρ
  | [] => []
  | e :: es => e.rules ++ Expr.rulesOfAll es

end

variable {env : ρ → Parser ν ε}

mutual

/-- If the parsers of its rules agree with readers, so does the run of an expression with its
reading. -/
theorem Expr.run_agrees (hr : ∀ name, (readers name).Exact) :
    ∀ e : Expr ρ ν ε, (∀ name ∈ e.rules, Agrees (env name) (readers name)) →
      Agrees (e.run env) (e.read readers)
  | .any, _ => by
    intro c
    cases hc : c.rest with
    | nil => exact ⟨[], by simp [Expr.run, Expr.read, hc, Reply.fail]⟩
    | cons ch rest =>
      refine ⟨[], ?_⟩
      have htake : (take c (Text.byteSize [ch]) : Except Stop (Reply (Option (Match ν)) ε)) =
          .ok (.succeed (Reading.leaf [ch] rest).found) := take_of_rest_eq hc
      simp only [Expr.run, Expr.read, hc]
      simpa [Reply.succeed] using htake
  | .endOfText, _ => by
    intro c
    refine ⟨[], ?_⟩
    cases hc : c.rest <;> simp [Expr.run, Expr.read, hc, Cursor.isAtEnd, Reply.fail, Reply.succeed]
  | .literal text, _ => by
    intro c
    refine ⟨[], ?_⟩
    by_cases hprefix : text.toList.isPrefixOf c.rest
    · obtain ⟨rest, hrest⟩ := List.isPrefixOf_iff_prefix.mp hprefix
      have htake := take_of_rest_eq (ν := ν) (ε := ε) hrest.symm
      simp only [Expr.run, Expr.read, if_pos hprefix]
      simpa [← hrest, Reply.succeed] using htake
    · simp [Expr.run, Expr.read, hprefix, Reply.fail]
  | .pattern regex, _ => by
    intro c
    refine ⟨[], ?_⟩
    rw [Expr.run, Expr.read]
    cases regex.find? c.rest with
    | none => rfl
    | some range =>
      obtain ⟨start, length⟩ := range
      cases start with
      | zero => exact take_of_rest_eq (List.take_append_drop _ c.rest).symm
      | succ start => rfl
  | .notAhead body, h => by
    intro c
    obtain ⟨events, hbody⟩ := Expr.run_agrees hr body h c
    refine ⟨events, ?_⟩
    rw [Expr.run, Expr.read, hbody]
    cases body.read readers c.rest <;> rfl
  | .ahead body, h => by
    intro c
    obtain ⟨events, hbody⟩ := Expr.run_agrees hr body h c
    refine ⟨events, ?_⟩
    rw [Expr.run, Expr.read, hbody]
    cases body.read readers c.rest <;> rfl
  | .sequence elements, h => by
    intro c
    obtain ⟨events, heach⟩ := Expr.runEach_agrees hr elements h c
    refine ⟨events, ?_⟩
    rw [Expr.run, Expr.read, heach]
    cases hs : Expr.readEach readers elements c.rest with
    | none => rfl
    | some s =>
      have hcut := Expr.isCut_readEach hr elements hs
      refine span_of_isCut hcut _ _ events ?_ rfl
      rw [← hcut.consumed, List.sum_eq_foldl, List.foldl_map]
  | .firstOf alternatives, h => Expr.runFirst_agrees hr alternatives h
  | .zeroOrMore body, h => (Expr.run_agrees hr body h).zeroOrMore (Expr.exact_read hr body)
  | .oneOrMore body, h => (Expr.run_agrees hr body h).oneOrMore (Expr.exact_read hr body)
  | .onMatch body transform, h => by
    intro c
    obtain ⟨events, hbody⟩ := Expr.run_agrees hr body h c
    rw [Expr.run, Expr.read, hbody]
    cases body.read readers c.rest with
    | none => exact ⟨events, rfl⟩
    | some r => exact ⟨events ++ (r.found.transformed transform).2, rfl⟩
  | .rule name, h => h name (by simp [Expr.rules])

theorem Expr.runEach_agrees (hr : ∀ name, (readers name).Exact) :
    ∀ es : List (Expr ρ ν ε), (∀ name ∈ Expr.rulesOfAll es, Agrees (env name) (readers name)) →
      ∀ c, ∃ events, Expr.runEach env es c =
        .ok ⟨(Expr.readEach readers es c.rest).map Stretch.parts, events⟩
  | [], _ => fun _ => ⟨[], rfl⟩
  | e :: es, h => by
    intro c
    obtain ⟨events, hfirst⟩ := Expr.run_agrees hr e
      (fun name hname => h name (List.mem_append_left _ hname)) c
    rw [Expr.runEach, Expr.readEach, hfirst]
    cases hread : e.read readers c.rest with
    | none => exact ⟨events, rfl⟩
    | some r =>
      have hcut := Expr.exact_read hr e hread
      obtain ⟨more, hrest⟩ := Expr.runEach_agrees hr es
        (fun name hname => h name (List.mem_append_right _ hname))
        ⟨r.front.reverse ++ c.behind, r.rest⟩
      refine ⟨events ++ more, ?_⟩
      simp only [Option.map_some, hcut.advance, hrest, Option.bind_some]
      cases Expr.readEach readers es r.rest <;> rfl

theorem Expr.runFirst_agrees (hr : ∀ name, (readers name).Exact) :
    ∀ es : List (Expr ρ ν ε), (∀ name ∈ Expr.rulesOfAll es, Agrees (env name) (readers name)) →
      Agrees (Expr.runFirst env es) (Expr.readFirst readers es)
  | [], _ => fun _ => ⟨[], rfl⟩
  | e :: es, h => by
    intro c
    obtain ⟨events, hfirst⟩ := Expr.run_agrees hr e
      (fun name hname => h name (List.mem_append_left _ hname)) c
    rw [Expr.runFirst, Expr.readFirst, hfirst]
    cases e.read readers c.rest with
    | some r => exact ⟨events, rfl⟩
    | none =>
      obtain ⟨more, hrest⟩ := Expr.runFirst_agrees hr es
        (fun name hname => h name (List.mem_append_right _ hname)) c
      exact ⟨events ++ more, by simp [hrest]⟩

end

/-! ## Grammars without recursion -/

namespace Grammar

variable {g : Grammar ρ ν ε}

/-- The reader of each rule where rules nest at most `depth` levels deep; what nests more deeply
does not match. -/
def reader (g : Grammar ρ ν ε) : (depth : Nat) → ρ → Reader ν
  | 0, _ => fun _ => none
  | depth + 1, name => (g.body name).read (g.reader depth)

theorem exact_reader (depth : Nat) (name : ρ) : (g.reader depth name).Exact := by
  induction depth generalizing name with
  | zero =>
    intro cs r h
    cases h
  | succ depth ih => exact Expr.exact_read ih (g.body name)

/-- Every rule refers to rules of lower rank only. -/
structure Ranked (g : Grammar ρ ν ε) (rank : ρ → Nat) : Prop where
  rank_lt : ∀ name, ∀ inner ∈ (g.body name).rules, rank inner < rank name

variable {rank : ρ → Nat}

/-- Below its rank a rule is never cut short, on either side. -/
theorem Ranked.parser_agrees (h : g.Ranked rank) {depth depth' : Nat} {name : ρ}
    (hd : rank name < depth) (hd' : rank name < depth') :
    Agrees (g.parser depth name) (g.reader depth' name) := by
  induction depth generalizing depth' name with
  | zero => omega
  | succ depth ih =>
    obtain ⟨depth', rfl⟩ : ∃ d, depth' = d + 1 := ⟨depth' - 1, by omega⟩
    apply Expr.run_agrees (exact_reader depth')
    intro inner hinner
    have hlt := h.rank_lt name inner hinner
    exact ih (by omega) (by omega)

/-- The reader of a rule, deep enough for its rank. -/
def Ranked.read (_ : g.Ranked rank) (name : ρ) : Reader ν := g.reader (rank name + 1) name

theorem Ranked.exact_read (h : g.Ranked rank) (name : ρ) : (h.read name).Exact :=
  exact_reader _ name

/-- A run of an expression agrees with its reading if the depth exceeds the rank of every rule that
it refers to. -/
theorem Ranked.run_agrees (h : g.Ranked rank) {depth : Nat} (e : Expr ρ ν ε)
    (hd : ∀ name ∈ e.rules, rank name < depth) :
    Agrees (e.run (g.parser depth)) (e.read h.read) :=
  Expr.run_agrees h.exact_read e fun name hname =>
    h.parser_agrees (hd name hname) (Nat.lt_succ_self _)

/-- A rule reads as its expression does. -/
theorem Ranked.read_eq (h : g.Ranked rank) (name : ρ) : h.read name = (g.body name).read h.read :=
  (h.parser_agrees (Nat.lt_succ_self (rank name)) (Nat.lt_succ_self _)).unique
    (h.run_agrees (g.body name) (h.rank_lt name)) (h.exact_read name)
    (Expr.exact_read h.exact_read (g.body name))

end Grammar

end WikiMarkup.Peg
