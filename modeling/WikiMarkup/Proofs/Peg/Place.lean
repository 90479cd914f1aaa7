import WikiMarkup.Proofs.Peg.Soundness
import WikiMarkup.Rules.Markup

/-!
# Only the text ahead counts

Whatever the grammar, an application at a place in a text answers as it does at the start of the
text that is ahead of it. A place is named by a byte offset from the start of the whole text only
where a cursor moves, and since no move leaves the text, no answer tells the offset.

The two applications run side by side: they move to places with the same text ahead, so every step
of the one is a step of the other.
-/

namespace WikiMarkup

namespace Cursor

variable {c d c' : Cursor} {n : Nat}

theorem slice_congr (h : c.rest = d.rest) (n : Nat) : c.slice n = d.slice n := by
  rw [slice, slice, h]

/-- Cursors with the same text ahead move side by side. -/
theorem exists_advance_of_rest_eq (hc : c.advance n = .ok c') (h : c.rest = d.rest) :
    ∃ d', d.advance n = .ok d' ∧ c'.rest = d'.rest := by
  obtain ⟨front, hrest, -, rfl⟩ := exists_front_of_advance hc
  exact ⟨_, advance_of_rest_eq (h.symm.trans hrest), rfl⟩

end Cursor

namespace Peg

variable {α ρ ν ε : Type}

/-- The answer at a place depends on the text ahead only. -/
def LooksAhead (f : Cursor → α) : Prop := ∀ c d : Cursor, c.rest = d.rest → f c = f d

variable {p : Parser ν ε} {env : ρ → Parser ν ε} {e body : Expr ρ ν ε} {es : List (Expr ρ ν ε)}

/-! ## Texts cut out -/

theorem take_congr {c d : Cursor} (h : c.rest = d.rest) (size : Nat) :
    (take c size : Except Stop (Reply (Option (Match ν)) ε)) = take d size := by
  rw [take, take, Cursor.slice_congr h]

theorem span_congr {c d : Cursor} (h : c.rest = d.rest) (consumed : Nat) (parts : List (Match ν))
    (events : List ε) : span c consumed parts events = span d consumed parts events := by
  rw [span, span, Cursor.slice_congr h]

/-! ## Expressions that take characters -/

theorem looksAhead_any : LooksAhead ((Expr.any : Expr ρ ν ε).run env) := by
  intro c d h
  rw [Expr.run, Expr.run, h]
  cases d.rest with
  | nil => rfl
  | cons ch rest => exact take_congr h ch.utf8Size

theorem looksAhead_endOfText : LooksAhead ((Expr.endOfText : Expr ρ ν ε).run env) := by
  intro c d h
  rw [Expr.run, Expr.run, Cursor.isAtEnd, Cursor.isAtEnd, h]

theorem looksAhead_literal (text : String) :
    LooksAhead ((Expr.literal text : Expr ρ ν ε).run env) := by
  intro c d h
  rw [Expr.run, Expr.run, h, take_congr h]

/-- The start of the text is, for a pattern, the place at which it is applied. -/
theorem looksAhead_pattern (regex : Regex) :
    LooksAhead ((Expr.pattern regex : Expr ρ ν ε).run env) := by
  intro c d h
  rw [Expr.run, Expr.run, h]
  split
  · exact take_congr h _
  · rfl

/-! ## Expressions made of others -/

theorem LooksAhead.notAhead (hbody : LooksAhead (body.run env)) :
    LooksAhead ((Expr.notAhead body).run env) := by
  intro c d h
  rw [Expr.run, Expr.run, hbody c d h]

theorem LooksAhead.ahead (hbody : LooksAhead (body.run env)) :
    LooksAhead ((Expr.ahead body).run env) := by
  intro c d h
  rw [Expr.run, Expr.run, hbody c d h]

theorem LooksAhead.onMatch (hbody : LooksAhead (body.run env)) (transform : Transform ν ε) :
    LooksAhead ((Expr.onMatch body transform).run env) := by
  intro c d h
  rw [Expr.run, Expr.run, hbody c d h]

theorem LooksAhead.sequence (heach : LooksAhead (Expr.runEach env es)) :
    LooksAhead ((Expr.sequence es).run env) := by
  intro c d h
  rw [Expr.run, Expr.run, heach c d h]
  simp only [span_congr h]

/-- Of several expressions in a row, the later ones are applied at places with the same text ahead
again. -/
theorem LooksAhead.runEach_cons (hsafe : Safe (e.run env)) (he : LooksAhead (e.run env))
    (hes : LooksAhead (Expr.runEach env es)) : LooksAhead (Expr.runEach env (e :: es)) := by
  intro c d h
  rw [Expr.runEach, Expr.runEach, ← he c d h]
  split
  · rfl
  · rfl
  · next m events hm =>
    obtain ⟨c', hc'⟩ := hsafe.exists_advance c m ⟨events, hm⟩
    obtain ⟨d', hd', hrest⟩ := Cursor.exists_advance_of_rest_eq hc' h
    simp only [hc', hd', hes c' d' hrest]

theorem LooksAhead.runFirst_cons (he : LooksAhead (e.run env))
    (hes : LooksAhead (Expr.runFirst env es)) : LooksAhead (Expr.runFirst env (e :: es)) := by
  intro c d h
  rw [Expr.runFirst, Expr.runFirst, he c d h, hes c d h]

/-- Rounds side by side: each starts where the one before it ended, with the same text ahead. -/
theorem LooksAhead.repeatFrom (hsafe : Safe p) (hp : LooksAhead p) (gathered : Rounds ν)
    (events : List ε) : LooksAhead fun c => repeatFrom p c gathered events := by
  intro c d h
  show Peg.repeatFrom p c gathered events = Peg.repeatFrom p d gathered events
  fun_induction Peg.repeatFrom p c gathered events generalizing d with
  | case1 c gathered events s hs =>
    rw [hp c d h] at hs
    rw [Peg.repeatFrom, hs]
  | case2 c gathered events new hnone =>
    rw [hp c d h] at hnone
    rw [Peg.repeatFrom, hnone]
  | case3 c gathered events m new hm hzero =>
    rw [hp c d h] at hm
    rw [Peg.repeatFrom, hm]
    simp only [dif_pos hzero]
  | case4 c gathered events m new hm hne f hc =>
    obtain ⟨c', hc'⟩ := hsafe.exists_advance c m ⟨new, hm⟩
    rw [hc'] at hc
    cases hc
  | case5 c gathered events m new hm hne c' hc _ ih =>
    obtain ⟨d', hd, hrest⟩ := Cursor.exists_advance_of_rest_eq hc h
    rw [hp c d h] at hm
    rw [ih d' hrest, repeatFrom_of_round hm hne hd]

theorem LooksAhead.zeroOrMore (hsafe : Safe (body.run env)) (hbody : LooksAhead (body.run env)) :
    LooksAhead ((Expr.zeroOrMore body).run env) := by
  intro c d h
  have hrounds := hbody.repeatFrom hsafe ⟨[], 0⟩ [] c d h
  simp only at hrounds
  rw [Expr.run, Expr.run, Peg.zeroOrMore, Peg.zeroOrMore, hrounds]
  simp only [span_congr h]

theorem LooksAhead.oneOrMore (hsafe : Safe (body.run env)) (hbody : LooksAhead (body.run env)) :
    LooksAhead ((Expr.oneOrMore body).run env) := by
  intro c d h
  rw [Expr.run, Expr.run, Peg.oneOrMore, Peg.oneOrMore, ← hbody c d h]
  split
  · rfl
  · rfl
  · next first events hfirst =>
    split
    · rfl
    · obtain ⟨c', hc'⟩ := hsafe.exists_advance c first ⟨events, hfirst⟩
      obtain ⟨d', hd', hrest⟩ := Cursor.exists_advance_of_rest_eq hc' h
      have hrounds := hbody.repeatFrom hsafe ⟨[first], first.consumed⟩ events c' d' hrest
      simp only at hrounds
      simp only [hc', hd', hrounds, span_congr h]

mutual

/-- If the parsers of its rules look ahead only, so does the run of an expression. -/
theorem Expr.looksAhead_run (hsafe : ∀ name, Safe (env name))
    (henv : ∀ name, LooksAhead (env name)) : ∀ e : Expr ρ ν ε, LooksAhead (e.run env)
  | .any => looksAhead_any
  | .endOfText => looksAhead_endOfText
  | .literal text => looksAhead_literal text
  | .pattern regex => looksAhead_pattern regex
  | .notAhead body => (Expr.looksAhead_run hsafe henv body).notAhead
  | .ahead body => (Expr.looksAhead_run hsafe henv body).ahead
  | .sequence elements => .sequence (Expr.looksAhead_runEach hsafe henv elements)
  | .firstOf alternatives => Expr.looksAhead_runFirst hsafe henv alternatives
  | .zeroOrMore body => (Expr.looksAhead_run hsafe henv body).zeroOrMore (body.safe_run hsafe)
  | .oneOrMore body => (Expr.looksAhead_run hsafe henv body).oneOrMore (body.safe_run hsafe)
  | .onMatch body transform => (Expr.looksAhead_run hsafe henv body).onMatch transform
  | .rule name => henv name

theorem Expr.looksAhead_runEach (hsafe : ∀ name, Safe (env name))
    (henv : ∀ name, LooksAhead (env name)) :
    ∀ es : List (Expr ρ ν ε), LooksAhead (Expr.runEach env es)
  | [] => fun _ _ _ => rfl
  | e :: es => .runEach_cons (e.safe_run hsafe) (Expr.looksAhead_run hsafe henv e)
      (Expr.looksAhead_runEach hsafe henv es)

theorem Expr.looksAhead_runFirst (hsafe : ∀ name, Safe (env name))
    (henv : ∀ name, LooksAhead (env name)) :
    ∀ es : List (Expr ρ ν ε), LooksAhead (Expr.runFirst env es)
  | [] => fun _ _ _ => rfl
  | e :: es => .runFirst_cons (Expr.looksAhead_run hsafe henv e)
      (Expr.looksAhead_runFirst hsafe henv es)

end

namespace Grammar

/-- However deeply its rules nest, no rule of a grammar looks behind the place at which it is
applied. -/
theorem looksAhead_rule (g : Grammar ρ ν ε) (depth : Nat) (name : ρ) :
    LooksAhead (g.parser depth name) := by
  induction depth generalizing name with
  | zero => exact fun _ _ _ => rfl
  | succ depth ih => exact Expr.looksAhead_run (g.safe_rule depth) ih (g.body name)

theorem looksAhead_run (g : Grammar ρ ν ε) (e : Expr ρ ν ε) : LooksAhead (g.run e) := by
  intro c d h
  have hdepth : g.depth c = g.depth d := by rw [depth, depth, h]
  rw [run, run, hdepth]
  exact Expr.looksAhead_run (g.safe_rule _) (g.looksAhead_rule _) e c d h

/-- An application at any place of a text comes to the same as one at the start of what is ahead:
the same match, failure or stop, and the same events, whatever bound there is on how deeply rules
nest. So it is with each rule of the markup.

The transforms of the expression and of the grammar are arbitrary in the node that they attach and
in what they leave of the parts. The text and the consumption of a match stay, as a transform is
there to attach a node and takes the nodes of the parts for it. -/
theorem run_at?_eq (g : Grammar ρ ν ε) (e : Expr ρ ν ε) (before after : String) :
    ∃ c, Cursor.at? (before ++ after) before.utf8ByteSize = .ok c ∧
      (∀ depth, e.run (g.parser depth) c = e.run (g.parser depth) (.ofString after)) ∧
      g.run e c = g.run e (.ofString after) ∧
      ∀ r : Rule, r.run c = r.run (.ofString after) := by
  have htext : (Cursor.ofString (before ++ after)).rest = before.toList ++ after.toList :=
    String.toList_append
  have hplace := Cursor.advance_of_rest_eq htext
  rw [Text.byteSize_toList] at hplace
  refine ⟨_, hplace, fun depth => ?_, ?_, fun r => ?_⟩
  · exact Expr.looksAhead_run (g.safe_rule depth) (g.looksAhead_rule depth) e _ _ rfl
  · exact g.looksAhead_run e _ _ rfl
  · exact Rule.grammar.looksAhead_run (.rule r) _ _ rfl

end Grammar

end Peg

end WikiMarkup
