import WikiMarkup.Peg.Grammar
import WikiMarkup.Proofs.Peg.Agreement

/-!
# More depth

The bound on how deeply rules nest decides only whether there is an answer. An answer that is found
within one bound is found within every larger one, with the same events; so it is the answer of the
grammar, whichever bound it was found within.
-/

namespace WikiMarkup.Peg

variable {α ρ ν ε : Type}

/-- Wherever the first has an answer, the second has the same. -/
def Extends (f f' : Cursor → Except Stop α) : Prop := ∀ c a, f c = .ok a → f' c = .ok a

variable {p p' : Parser ν ε} {env env' : ρ → Parser ν ε} {e body : Expr ρ ν ε}
  {es : List (Expr ρ ν ε)}

theorem Extends.refl (f : Cursor → Except Stop α) : Extends f f := fun _ _ h => h

theorem Extends.trans {f f' f'' : Cursor → Except Stop α} (h : Extends f f')
    (h' : Extends f' f'') : Extends f f'' := fun c a ha => h' c a (h c a ha)

theorem Extends.notAhead (h : Extends (body.run env) (body.run env')) :
    Extends ((Expr.notAhead body).run env) ((Expr.notAhead body).run env') := by
  intro c reply hrun
  rw [Expr.run] at hrun ⊢
  split at hrun
  · cases hrun
  · next hbody =>
    rw [h c _ hbody]
    exact hrun
  · next hbody =>
    rw [h c _ hbody]
    exact hrun

theorem Extends.ahead (h : Extends (body.run env) (body.run env')) :
    Extends ((Expr.ahead body).run env) ((Expr.ahead body).run env') := by
  intro c reply hrun
  rw [Expr.run] at hrun ⊢
  split at hrun
  · cases hrun
  · next hbody =>
    rw [h c _ hbody]
    exact hrun
  · next hbody =>
    rw [h c _ hbody]
    exact hrun

theorem Extends.onMatch (h : Extends (body.run env) (body.run env')) (transform : Transform ν ε) :
    Extends ((Expr.onMatch body transform).run env) ((Expr.onMatch body transform).run env') := by
  intro c reply hrun
  rw [Expr.run] at hrun ⊢
  split at hrun
  · cases hrun
  · next hbody =>
    rw [h c _ hbody]
    exact hrun
  · next hbody =>
    rw [h c _ hbody]
    exact hrun

theorem Extends.sequence (h : Extends (Expr.runEach env es) (Expr.runEach env' es)) :
    Extends ((Expr.sequence es).run env) ((Expr.sequence es).run env') := by
  intro c reply hrun
  rw [Expr.run] at hrun ⊢
  split at hrun
  · cases hrun
  · next heach =>
    rw [h c _ heach]
    exact hrun
  · next heach =>
    rw [h c _ heach]
    exact hrun

theorem Extends.runEach_cons (he : Extends (e.run env) (e.run env'))
    (hes : Extends (Expr.runEach env es) (Expr.runEach env' es)) :
    Extends (Expr.runEach env (e :: es)) (Expr.runEach env' (e :: es)) := by
  intro c reply hrun
  rw [Expr.runEach] at hrun ⊢
  split at hrun
  · cases hrun
  · next hfirst =>
    rw [he c _ hfirst]
    exact hrun
  · next hfirst =>
    simp only [he c _ hfirst]
    split at hrun
    · cases hrun
    · split at hrun
      · cases hrun
      · next hrest =>
        simp only [hes _ _ hrest]
        exact hrun

theorem Extends.runFirst_cons (he : Extends (e.run env) (e.run env'))
    (hes : Extends (Expr.runFirst env es) (Expr.runFirst env' es)) :
    Extends (Expr.runFirst env (e :: es)) (Expr.runFirst env' (e :: es)) := by
  intro c reply hrun
  rw [Expr.runFirst] at hrun ⊢
  split at hrun
  · cases hrun
  · next hfirst =>
    rw [he c _ hfirst]
    exact hrun
  · next hfirst =>
    simp only [he c _ hfirst]
    split at hrun
    · cases hrun
    · next hrest =>
      rw [hes c _ hrest]
      exact hrun

/-- Every round is the same, so the rounds gathered are. -/
theorem Extends.repeatFrom (h : Extends p p') (gathered : Rounds ν) (events : List ε) :
    Extends (fun c => repeatFrom p c gathered events)
      fun c => repeatFrom p' c gathered events := by
  intro c reply hrun
  change Peg.repeatFrom p c gathered events = .ok reply at hrun
  change Peg.repeatFrom p' c gathered events = .ok reply
  fun_induction Peg.repeatFrom p c gathered events with
  | case1 => cases hrun
  | case2 c gathered events new hnone =>
    rw [Peg.repeatFrom, h c _ hnone]
    exact hrun
  | case3 c gathered events m new hm hzero =>
    rw [Peg.repeatFrom, h c _ hm]
    simp only [dif_pos hzero]
    exact hrun
  | case4 => cases hrun
  | case5 c gathered events m new hm hne c' hc _ ih =>
    rw [repeatFrom_of_round (h c _ hm) hne hc]
    exact ih hrun

theorem Extends.zeroOrMore (h : Extends (body.run env) (body.run env')) :
    Extends ((Expr.zeroOrMore body).run env) ((Expr.zeroOrMore body).run env') := by
  intro c reply hrun
  rw [Expr.run, Peg.zeroOrMore] at hrun ⊢
  split at hrun
  · cases hrun
  · next hrounds =>
    have hsame := h.repeatFrom ⟨[], 0⟩ [] c _ hrounds
    simp only at hsame
    rw [hsame]
    exact hrun

theorem Extends.oneOrMore (h : Extends (body.run env) (body.run env')) :
    Extends ((Expr.oneOrMore body).run env) ((Expr.oneOrMore body).run env') := by
  intro c reply hrun
  rw [Expr.run, Peg.oneOrMore] at hrun ⊢
  split at hrun
  · cases hrun
  · next hfirst =>
    rw [h c _ hfirst]
    exact hrun
  · next first events hfirst =>
    simp only [h c _ hfirst]
    split at hrun
    · next hzero =>
      rw [if_pos hzero]
      exact hrun
    · next hne =>
      rw [if_neg hne]
      split at hrun
      · cases hrun
      · next c' hc =>
        split at hrun
        · cases hrun
        · next hrounds =>
          have hsame := h.repeatFrom ⟨[first], first.consumed⟩ events c' _ hrounds
          simp only at hsame
          rw [hsame]
          exact hrun

mutual

/-- If the parsers of its rules have the answers of others, so does the run of an expression. -/
theorem Expr.extends_run (henv : ∀ name, Extends (env name) (env' name)) :
    ∀ e : Expr ρ ν ε, Extends (e.run env) (e.run env')
  | .any => .refl _
  | .endOfText => .refl _
  | .literal _ => .refl _
  | .pattern _ => .refl _
  | .notAhead body => (Expr.extends_run henv body).notAhead
  | .ahead body => (Expr.extends_run henv body).ahead
  | .sequence elements => .sequence (Expr.extends_runEach henv elements)
  | .firstOf alternatives => Expr.extends_runFirst henv alternatives
  | .zeroOrMore body => (Expr.extends_run henv body).zeroOrMore
  | .oneOrMore body => (Expr.extends_run henv body).oneOrMore
  | .onMatch body transform => (Expr.extends_run henv body).onMatch transform
  | .rule name => henv name

theorem Expr.extends_runEach (henv : ∀ name, Extends (env name) (env' name)) :
    ∀ es : List (Expr ρ ν ε), Extends (Expr.runEach env es) (Expr.runEach env' es)
  | [] => .refl _
  | e :: es => .runEach_cons (Expr.extends_run henv e) (Expr.extends_runEach henv es)

theorem Expr.extends_runFirst (henv : ∀ name, Extends (env name) (env' name)) :
    ∀ es : List (Expr ρ ν ε), Extends (Expr.runFirst env es) (Expr.runFirst env' es)
  | [] => .refl _
  | e :: es => .runFirst_cons (Expr.extends_run henv e) (Expr.extends_runFirst henv es)

end

namespace Grammar

theorem extends_succ (g : Grammar ρ ν ε) (depth : Nat) (name : ρ) :
    Extends (g.parser depth name) (g.parser (depth + 1) name) := by
  induction depth generalizing name with
  | zero =>
    intro c reply h
    cases h
  | succ depth ih => exact Expr.extends_run ih (g.body name)

theorem extends_of_le (g : Grammar ρ ν ε) {depth depth' : Nat} (h : depth ≤ depth') (name : ρ) :
    Extends (g.parser depth name) (g.parser depth' name) := by
  induction h with
  | refl => exact .refl _
  | step _ ih => exact ih.trans (g.extends_succ _ name)

/-- An answer stays the answer when rules may nest more deeply. -/
theorem run_eq_of_le {g : Grammar ρ ν ε} {depth depth' : Nat} (h : depth ≤ depth')
    {e : Expr ρ ν ε} {c : Cursor} {reply : Reply (Option (Match ν)) ε}
    (hrun : e.run (g.parser depth) c = .ok reply) : e.run (g.parser depth') c = .ok reply :=
  Expr.extends_run (g.extends_of_le h) e c reply hrun

end Grammar

end WikiMarkup.Peg
