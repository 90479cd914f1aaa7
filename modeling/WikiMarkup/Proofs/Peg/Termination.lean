import Mathlib.Data.Finset.Card
import WikiMarkup.Proofs.Peg.Depth
import WikiMarkup.Proofs.Peg.LeftRecursion

/-!
# Applications end

An application of an expression over rules that are not left recursive ends in a match or in a
failure, and `Grammar.depth` bounds how deeply the rules nest on the way. Repetitions need no care,
since a round that consumes nothing ends them.

Rules are left behind in two ways: a call at the same place leads to a rule of lower rank, and a
rule applied further on has less text ahead. So the measure is the text ahead first, the rank
second, and within a rule the size of its expression.
-/

namespace WikiMarkup.Peg

variable {ρ ν ε : Type} {p : Parser ν ε} {env : ρ → Parser ν ε} {c c' : Cursor}

/-! ## Where an application goes too deep -/

theorem span_ne_tooDeep {consumed : Nat} {parts : List (Match ν)} {events : List ε} :
    span c consumed parts events ≠ .error .tooDeep := by
  unfold span
  split
  · exact nofun
  · exact nofun

theorem Takes.ne_tooDeep (h : Takes p) (c : Cursor) : p c ≠ .error .tooDeep := by
  rcases h c with hfail | ⟨front, rest, -, htake⟩
  · rw [hfail]
    exact nofun
  · rw [htake]
    exact nofun

/-- Rounds start at the place of the repetition, or further on. -/
theorem exists_of_repeatFrom_tooDeep {gathered : Rounds ν} {events : List ε}
    (h : repeatFrom p c gathered events = .error .tooDeep) :
    ∃ c', (c' = c ∨ c'.rest.length < c.rest.length) ∧ p c' = .error .tooDeep := by
  fun_induction repeatFrom p c gathered events with
  | case1 c gathered events s hs =>
    cases h
    exact ⟨c, .inl rfl, hs⟩
  | case2 => cases h
  | case3 => cases h
  | case4 => cases h
  | case5 c gathered events m new hm hne c' hc hlt ih =>
    obtain ⟨c'', hplace, hdeep⟩ := ih h
    refine ⟨c'', .inr ?_, hdeep⟩
    rcases hplace with rfl | hplace
    · exact hlt
    · exact Nat.lt_trans hplace hlt

namespace Grammar

/-- Some rule nests too deeply: one of those called at the place, or one of those that may be
applied further on. -/
inductive TooDeepIn (g : Grammar ρ ν ε) (depth : Nat) (called : ρ → Prop) (rules : List ρ)
    (c : Cursor) : Prop where
  | here {name : ρ} : called name → g.parser depth name c = .error .tooDeep →
    TooDeepIn g depth called rules c
  | further {name : ρ} {c' : Cursor} : name ∈ rules → c'.rest.length < c.rest.length →
    g.parser depth name c' = .error .tooDeep → TooDeepIn g depth called rules c

variable {g : Grammar ρ ν ε} {depth : Nat} {called called' : ρ → Prop} {rules rules' : List ρ}
  {e body : Expr ρ ν ε} {es : List (Expr ρ ν ε)}

theorem TooDeepIn.mono (h : g.TooDeepIn depth called rules c)
    (hcalled : ∀ name, called name → called' name) (hrules : ∀ name ∈ rules, name ∈ rules') :
    g.TooDeepIn depth called' rules' c := by
  cases h with
  | here hname hdeep => exact .here (hcalled _ hname) hdeep
  | further hname hlt hdeep => exact .further (hrules _ hname) hlt hdeep

/-- What goes too deep further on does so further on from the place before it. -/
theorem TooDeepIn.of_lt (h : g.TooDeepIn depth called rules c')
    (hlt : c'.rest.length < c.rest.length) (hcalled : ∀ name, called name → name ∈ rules) :
    g.TooDeepIn depth called' rules c := by
  cases h with
  | here hname hdeep => exact .further (hcalled _ hname) hlt hdeep
  | further hname hlt' hdeep => exact .further hname (Nat.lt_trans hlt' hlt) hdeep

/-- An expression that calls what its body calls, and may apply what its body may. -/
theorem TooDeepIn.of_body (h : g.TooDeepIn depth (g.Calls body) body.rules c)
    (hcalls : ∀ name, g.Calls body name → g.Calls e name) (hrules : body.rules = e.rules) :
    g.TooDeepIn depth (g.Calls e) e.rules c :=
  h.mono hcalls fun _ hname => hrules ▸ hname

/-- A repetition goes too deep in one of its rounds. -/
theorem TooDeepIn.of_round (h : g.TooDeepIn depth (g.Calls body) body.rules c')
    (hplace : c' = c ∨ c'.rest.length < c.rest.length)
    (hcalls : ∀ name, g.Calls body name → g.Calls e name) (hrules : body.rules = e.rules) :
    g.TooDeepIn depth (g.Calls e) e.rules c := by
  rcases hplace with rfl | hlt
  · exact h.of_body hcalls hrules
  · rw [← hrules]
    exact h.of_lt hlt fun _ hname => hname.mem_rules

/-- A sequence goes too deep in its first element or behind it. If the element consumed nothing, the
others are applied at the same place. -/
theorem tooDeepIn_runEach_cons
    (he : ∀ c, e.run (g.parser depth) c = .error .tooDeep →
      g.TooDeepIn depth (g.Calls e) e.rules c)
    (hes : ∀ c, Expr.runEach (g.parser depth) es c = .error .tooDeep →
      g.TooDeepIn depth (g.Calls (.sequence es)) (Expr.rulesOfAll es) c)
    (h : Expr.runEach (g.parser depth) (e :: es) c = .error .tooDeep) :
    g.TooDeepIn depth (g.Calls (.sequence (e :: es))) (Expr.rulesOfAll (e :: es)) c := by
  have hrules : ∀ name ∈ Expr.rulesOfAll es, name ∈ Expr.rulesOfAll (e :: es) := fun _ hname =>
    List.mem_append_right _ hname
  rw [Expr.runEach] at h
  split at h
  · next s hs =>
    cases h
    exact (he c hs).mono (fun _ hname => .sequence (List.forall_mem_nil _) hname)
      fun _ hname => List.mem_append_left _ hname
  · cases h
  · next m events hm =>
    split at h
    · cases h
    · next c' hc =>
      split at h
      · next s hs =>
        cases h
        have hrest := hes c' hs
        by_cases hzero : m.consumed = 0
        · -- The element has just shown that it can match without consuming.
          rw [hzero, Cursor.advance_zero] at hc
          cases hc
          exact hrest.mono (fun _ hname => hname.sequence_cons ⟨depth, c, m, ⟨events, hm⟩, hzero⟩)
            hrules
        · have hlt := Cursor.length_rest_lt_of_advance hc (Nat.pos_of_ne_zero hzero)
          exact (hrest.of_lt hlt fun _ hname => hname.mem_rules).mono (fun _ hname => hname) hrules
      · cases h

theorem tooDeepIn_runFirst_cons
    (he : e.run (g.parser depth) c = .error .tooDeep → g.TooDeepIn depth (g.Calls e) e.rules c)
    (hes : Expr.runFirst (g.parser depth) es c = .error .tooDeep →
      g.TooDeepIn depth (g.Calls (.firstOf es)) (Expr.rulesOfAll es) c)
    (h : Expr.runFirst (g.parser depth) (e :: es) c = .error .tooDeep) :
    g.TooDeepIn depth (g.Calls (.firstOf (e :: es))) (Expr.rulesOfAll (e :: es)) c := by
  rw [Expr.runFirst] at h
  split at h
  · next s hs =>
    cases h
    exact (he hs).mono (fun _ hname => .firstOf (List.mem_cons_self ..) hname)
      fun _ hname => List.mem_append_left _ hname
  · cases h
  · split at h
    · next s hs =>
      cases h
      refine (hes hs).mono (fun _ hname => ?_) fun _ hname => List.mem_append_right _ hname
      cases hname with
      | firstOf hmem hcall => exact .firstOf (List.mem_cons_of_mem e hmem) hcall
    · cases h

theorem tooDeepIn_zeroOrMore
    (hbody : ∀ c, body.run (g.parser depth) c = .error .tooDeep →
      g.TooDeepIn depth (g.Calls body) body.rules c)
    (h : (Expr.zeroOrMore body).run (g.parser depth) c = .error .tooDeep) :
    g.TooDeepIn depth (g.Calls (.zeroOrMore body)) (Expr.zeroOrMore body).rules c := by
  rw [Expr.run, Peg.zeroOrMore] at h
  split at h
  · next s hs =>
    cases h
    obtain ⟨c', hplace, hdeep⟩ := exists_of_repeatFrom_tooDeep hs
    exact (hbody c' hdeep).of_round hplace (fun _ hname => .zeroOrMore hname) rfl
  · exact absurd h span_ne_tooDeep

theorem tooDeepIn_oneOrMore
    (hbody : ∀ c, body.run (g.parser depth) c = .error .tooDeep →
      g.TooDeepIn depth (g.Calls body) body.rules c)
    (h : (Expr.oneOrMore body).run (g.parser depth) c = .error .tooDeep) :
    g.TooDeepIn depth (g.Calls (.oneOrMore body)) (Expr.oneOrMore body).rules c := by
  rw [Expr.run, Peg.oneOrMore] at h
  split at h
  · next s hs =>
    cases h
    exact (hbody c hs).of_body (fun _ hname => .oneOrMore hname) rfl
  · cases h
  · next first events hfirst =>
    split at h
    · cases h
    · next hne =>
      split at h
      · cases h
      · next c' hc =>
        have hlt := Cursor.length_rest_lt_of_advance hc (Nat.pos_of_ne_zero hne)
        split at h
        · next s hs =>
          cases h
          obtain ⟨c'', hplace, hdeep⟩ := exists_of_repeatFrom_tooDeep hs
          have hlater : c''.rest.length < c.rest.length := by
            rcases hplace with rfl | hlt'
            · exact hlt
            · exact Nat.lt_trans hlt' hlt
          exact (hbody c'' hdeep).of_round (.inr hlater) (fun _ hname => .oneOrMore hname) rfl
        · exact absurd h span_ne_tooDeep

mutual

/-- An expression goes too deep only in a rule that it calls, or in one that it applies further
on. -/
theorem tooDeepIn_run : ∀ (e : Expr ρ ν ε) (c : Cursor),
    e.run (g.parser depth) c = .error .tooDeep → g.TooDeepIn depth (g.Calls e) e.rules c
  | .any, c, h => absurd h (takes_any.ne_tooDeep c)
  | .endOfText, c, h => absurd h (takes_endOfText.ne_tooDeep c)
  | .literal text, c, h => absurd h ((takes_literal text).ne_tooDeep c)
  | .pattern regex, c, h => absurd h ((takes_pattern regex).ne_tooDeep c)
  | .notAhead body, c, h => by
    rw [Expr.run] at h
    split at h
    · next s hs =>
      cases h
      exact (tooDeepIn_run body c hs).of_body (fun _ hname => .notAhead hname) rfl
    · cases h
    · cases h
  | .ahead body, c, h => by
    rw [Expr.run] at h
    split at h
    · next s hs =>
      cases h
      exact (tooDeepIn_run body c hs).of_body (fun _ hname => .ahead hname) rfl
    · cases h
    · cases h
  | .onMatch body _, c, h => by
    rw [Expr.run] at h
    split at h
    · next s hs =>
      cases h
      exact (tooDeepIn_run body c hs).of_body (fun _ hname => .onMatch hname) rfl
    · cases h
    · cases h
  | .sequence es, c, h => by
    rw [Expr.run] at h
    split at h
    · next s hs =>
      cases h
      exact tooDeepIn_runEach es c hs
    · cases h
    · exact absurd h span_ne_tooDeep
  | .firstOf es, c, h => tooDeepIn_runFirst es c h
  | .zeroOrMore body, _, h => tooDeepIn_zeroOrMore (tooDeepIn_run body) h
  | .oneOrMore body, _, h => tooDeepIn_oneOrMore (tooDeepIn_run body) h
  | .rule _, _, h => .here .rule h

theorem tooDeepIn_runEach : ∀ (es : List (Expr ρ ν ε)) (c : Cursor),
    Expr.runEach (g.parser depth) es c = .error .tooDeep →
      g.TooDeepIn depth (g.Calls (.sequence es)) (Expr.rulesOfAll es) c
  | [], _, h => nomatch h
  | e :: es, _, h => tooDeepIn_runEach_cons (tooDeepIn_run e) (tooDeepIn_runEach es) h

theorem tooDeepIn_runFirst : ∀ (es : List (Expr ρ ν ε)) (c : Cursor),
    Expr.runFirst (g.parser depth) es c = .error .tooDeep →
      g.TooDeepIn depth (g.Calls (.firstOf es)) (Expr.rulesOfAll es) c
  | [], _, h => nomatch h
  | e :: es, c, h => tooDeepIn_runFirst_cons (tooDeepIn_run e c) (tooDeepIn_runFirst es c) h

end

/-! ## Ranks -/

/-- Rules that do not lead to themselves have ranks that fall with every call: the rank of a rule is
the number of rules that it leads to. -/
theorem exists_rank (hclosed : g.IsClosed) (h : ¬g.LeftRecursive) :
    ∃ rank : ρ → Nat, (∀ name ∈ g.rules, rank name < g.rules.length) ∧
      ∀ name ∈ g.rules, ∀ inner, g.Calls (g.body name) inner → rank inner < rank name := by
  classical
  have hself : ∀ name ∈ g.rules, ¬g.Reaches name name := fun name hname hreaches =>
    h ⟨name, hname, hreaches⟩
  refine ⟨fun name => (g.rules.toFinset.filter (g.Reaches name)).card, ?_, ?_⟩
  · intro name hname
    refine Nat.lt_of_lt_of_le (Finset.card_lt_card ?_) (List.toFinset_card_le g.rules)
    exact Finset.filter_ssubset.mpr ⟨name, List.mem_toFinset.mpr hname, hself name hname⟩
  · intro name hname inner hcall
    have hinner : inner ∈ g.rules := hclosed name hname inner hcall.mem_rules
    apply Finset.card_lt_card
    rw [Finset.ssubset_iff_of_subset]
    · have hreaches : g.Reaches name inner := .single hcall
      exact ⟨inner, by simp [hinner, hreaches], by simp [hself inner hinner]⟩
    · intro other hother
      rw [Finset.mem_filter] at hother ⊢
      exact ⟨hother.1, .head hcall hother.2⟩

section Measure

variable {rank : ρ → Nat} {bound top : Nat}

/-- An expression that calls rules below `top` goes too deep in a rule with less of the measure. -/
theorem exists_rule_of_tooDeep (hbound : ∀ name ∈ g.rules, rank name < bound) (he : g.Covers e)
    (htop : ∀ name, g.Calls e name → rank name < top)
    (hdeep : e.run (g.parser depth) c = .error .tooDeep) :
    ∃ name ∈ g.rules, ∃ c', c'.rest.length * bound + rank name < c.rest.length * bound + top ∧
      g.parser depth name c' = .error .tooDeep := by
  rcases tooDeepIn_run e c hdeep with @⟨name, hcall, hname⟩ | @⟨name, c', hmem, hlt, hname⟩
  · have hrank := htop name hcall
    exact ⟨name, he name hcall.mem_rules, c, by omega, hname⟩
  · have hrank := hbound name (he name hmem)
    have hplaces : (c'.rest.length + 1) * bound ≤ c.rest.length * bound :=
      Nat.mul_le_mul_right bound hlt
    rw [Nat.succ_mul] at hplaces
    exact ⟨name, he name hmem, c', by omega, hname⟩

/-- No more depth is needed than one for each rule below `top` at this place, and one for each rule
at every later place. -/
theorem run_ne_tooDeep (hclosed : g.IsClosed) (hbound : ∀ name ∈ g.rules, rank name < bound)
    (hfalls : ∀ name ∈ g.rules, ∀ inner, g.Calls (g.body name) inner → rank inner < rank name)
    (he : g.Covers e) (htop : ∀ name, g.Calls e name → rank name < top)
    (hdepth : c.rest.length * bound + top ≤ depth) :
    e.run (g.parser depth) c ≠ .error .tooDeep := by
  -- Entering a rule costs one level of depth, and the measure falls by at least one.
  induction depth generalizing e c top with
  | zero =>
    intro hdeep
    obtain ⟨name, -, c', hless, -⟩ := exists_rule_of_tooDeep hbound he htop hdeep
    omega
  | succ depth ih =>
    intro hdeep
    obtain ⟨name, hname, c', hless, hinner⟩ := exists_rule_of_tooDeep hbound he htop hdeep
    exact ih (hclosed name hname) (hfalls name hname) (by omega) hinner

end Measure

/-! ## Applications that end -/

/-- An application ends: there is one answer, a match or a failure, for which the bound of the
grammar is deep enough, as is every larger one. -/
def Ends (g : Grammar ρ ν ε) (e : Expr ρ ν ε) (c : Cursor) : Prop :=
  ∃ reply, g.run e c = .ok reply ∧ ∀ depth, g.depth c ≤ depth → e.run (g.parser depth) c = .ok reply

theorem ends_of_ne_tooDeep (h : g.run e c ≠ .error .tooDeep) : g.Ends e c := by
  have hsafe := (Expr.safe_run (g.safe_rule (g.depth c)) e).not_faults c
  cases hrun : g.run e c with
  | ok reply => exact ⟨reply, hrun, fun depth hle => run_eq_of_le hle hrun⟩
  | error s =>
    cases s with
    | fault f => exact absurd ⟨f, hrun⟩ hsafe
    | tooDeep => exact absurd hrun h

theorem ends_of_not_leftRecursive (hclosed : g.IsClosed) (h : ¬g.LeftRecursive)
    (he : g.Covers e) (c : Cursor) : g.Ends e c := by
  obtain ⟨rank, hbound, hfalls⟩ := exists_rank hclosed h
  have htop : ∀ name, g.Calls e name → rank name < g.rules.length := fun name hcall =>
    hbound name (he name hcall.mem_rules)
  have hdepth : c.rest.length * g.rules.length + g.rules.length ≤ g.depth c :=
    Nat.le_of_eq (Nat.succ_mul _ _).symm
  exact ends_of_ne_tooDeep (run_ne_tooDeep hclosed hbound hfalls he htop hdepth)

/-- A rule that is nothing but a call of itself has no answer, however deeply rules may nest. -/
theorem not_ends_of_body_eq {name : ρ} (h : g.body name = .rule name) (c : Cursor) :
    ¬g.Ends (.rule name) c := by
  have hdeep : ∀ depth, g.parser depth name c = .error .tooDeep := by
    intro depth
    induction depth with
    | zero => rfl
    | succ depth ih =>
      rw [parser, h]
      exact ih
  rintro ⟨reply, hrun, -⟩
  exact absurd ((hdeep (g.depth c)).symm.trans hrun) nofun

end Grammar

end WikiMarkup.Peg
