import Mathlib.Logic.Relation
import WikiMarkup.Proofs.Peg.Agreement
import WikiMarkup.Proofs.Peg.Soundness

/-!
# Left recursion

A rule that calls itself before anything is consumed never comes to an end. Which rules an
expression calls at the place at which it is applied depends on which expressions can match without
consuming: behind such an element of a sequence the next one is applied at the same place.

`Grammar.Calls` says this of what expressions really match. `Expr.heads` finds the calls from the
form of an expression, and may name too many: it takes every lookahead, repetition and pattern for
one that can match without consuming. So ranks that fall along the heads show that a grammar is not
left recursive.
-/

namespace WikiMarkup.Peg

variable {ρ ν ε : Type} {e body : Expr ρ ν ε} {es : List (Expr ρ ν ε)} {name : ρ}

theorem Expr.mem_rulesOfAll : name ∈ Expr.rulesOfAll es ↔ ∃ e ∈ es, name ∈ e.rules := by
  induction es with
  | nil => simp [Expr.rulesOfAll]
  | cons e es ih => simp [Expr.rulesOfAll, ih]

namespace Grammar

/-- Somewhere in some text the expression has a match that consumes nothing. -/
def CanTakeNothing (g : Grammar ρ ν ε) (e : Expr ρ ν ε) : Prop :=
  ∃ depth c m, Finds (e.run (g.parser depth)) c m ∧ m.consumed = 0

/-- The expression calls the rule at the place at which it is applied. -/
inductive Calls (g : Grammar ρ ν ε) : Expr ρ ν ε → ρ → Prop where
  | notAhead {body : Expr ρ ν ε} {name : ρ} : Calls g body name → Calls g (.notAhead body) name
  | ahead {body : Expr ρ ν ε} {name : ρ} : Calls g body name → Calls g (.ahead body) name
  | sequence {before after : List (Expr ρ ν ε)} {e : Expr ρ ν ε} {name : ρ} :
    (∀ earlier ∈ before, g.CanTakeNothing earlier) → Calls g e name →
    Calls g (.sequence (before ++ e :: after)) name
  | firstOf {es : List (Expr ρ ν ε)} {e : Expr ρ ν ε} {name : ρ} : e ∈ es → Calls g e name →
    Calls g (.firstOf es) name
  | zeroOrMore {body : Expr ρ ν ε} {name : ρ} : Calls g body name →
    Calls g (.zeroOrMore body) name
  | oneOrMore {body : Expr ρ ν ε} {name : ρ} : Calls g body name → Calls g (.oneOrMore body) name
  | onMatch {body : Expr ρ ν ε} {transform : Transform ν ε} {name : ρ} : Calls g body name →
    Calls g (.onMatch body transform) name
  | rule {name : ρ} : Calls g (.rule name) name

/-- One rule leads to another by calls at one and the same place. -/
def Reaches (g : Grammar ρ ν ε) : ρ → ρ → Prop :=
  Relation.TransGen fun name inner => g.Calls (g.body name) inner

/-- Some rule leads to itself by calls at one and the same place. -/
def LeftRecursive (g : Grammar ρ ν ε) : Prop := ∃ name ∈ g.rules, g.Reaches name name

/-- The expression refers to rules of the grammar only. -/
def Covers (g : Grammar ρ ν ε) (e : Expr ρ ν ε) : Prop := ∀ name ∈ e.rules, name ∈ g.rules

/-- The rules of the grammar refer to one another only. -/
def IsClosed (g : Grammar ρ ν ε) : Prop := ∀ name ∈ g.rules, g.Covers (g.body name)

variable {g : Grammar ρ ν ε}

/-- An expression calls rules that it refers to. -/
theorem Calls.mem_rules (h : g.Calls e name) : name ∈ e.rules := by
  induction h with
  | notAhead _ ih => exact ih
  | ahead _ ih => exact ih
  | sequence _ _ ih => exact Expr.mem_rulesOfAll.mpr ⟨_, by simp, ih⟩
  | firstOf he _ ih => exact Expr.mem_rulesOfAll.mpr ⟨_, he, ih⟩
  | zeroOrMore _ ih => exact ih
  | oneOrMore _ ih => exact ih
  | onMatch _ ih => exact ih
  | rule => exact List.mem_singleton_self _

/-- An element of a sequence that can match without consuming passes the place on. -/
theorem Calls.sequence_cons (he : g.CanTakeNothing e) (h : g.Calls (.sequence es) name) :
    g.Calls (.sequence (e :: es)) name := by
  cases h with
  | @sequence before after e' _ hbefore hcalls =>
    exact .sequence (List.forall_mem_cons.mpr ⟨he, hbefore⟩) hcalls

/-- If ranks fall with every call, no rule leads to itself. -/
theorem not_leftRecursive_of_rank {rank : ρ → Nat}
    (h : ∀ name inner, g.Calls (g.body name) inner → rank inner < rank name) :
    ¬g.LeftRecursive := by
  rintro ⟨name, -, hreaches⟩
  have hfalls : ∀ inner, g.Reaches name inner → rank inner < rank name := by
    intro inner hinner
    induction hinner with
    | single hcall => exact h name _ hcall
    | tail _ hcall ih => exact Nat.lt_trans (h _ _ hcall) ih
  exact Nat.lt_irrefl _ (hfalls name hreaches)

/-- A grammar whose rules do not recur at all is not left recursive. -/
theorem Ranked.not_leftRecursive {rank : ρ → Nat} (h : g.Ranked rank) : ¬g.LeftRecursive :=
  not_leftRecursive_of_rank fun name inner hcall => h.rank_lt name inner hcall.mem_rules

end Grammar

/-! ## What the form of an expression tells -/

section Form

mutual

/-- By its form, and if only the marked rules can, the expression may match without consuming. -/
def Expr.mayTakeNothing (marked : ρ → Bool) : Expr ρ ν ε → Bool
  | .any => false
  | .literal text => text.isEmpty
  | .endOfText | .pattern _ | .notAhead _ | .ahead _ | .zeroOrMore _ => true
  | .sequence es => Expr.allMayTakeNothing marked es
  | .firstOf es => Expr.anyMayTakeNothing marked es
  | .oneOrMore body => body.mayTakeNothing marked
  | .onMatch body _ => body.mayTakeNothing marked
  | .rule name => marked name

def Expr.allMayTakeNothing (marked : ρ → Bool) : List (Expr ρ ν ε) → Bool
  | [] => true
  | e :: es => e.mayTakeNothing marked && Expr.allMayTakeNothing marked es

def Expr.anyMayTakeNothing (marked : ρ → Bool) : List (Expr ρ ν ε) → Bool
  | [] => false
  | e :: es => e.mayTakeNothing marked || Expr.anyMayTakeNothing marked es

end

mutual

/-- The rules that an expression may call at the place at which it is applied. -/
def Expr.heads (marked : ρ → Bool) : Expr ρ ν ε → List ρ
  | .any | .endOfText | .literal _ | .pattern _ => []
  | .notAhead body | .ahead body | .zeroOrMore body | .oneOrMore body => body.heads marked
  | .onMatch body _ => body.heads marked
  | .sequence es => Expr.headsInTurn marked es
  | .firstOf es => Expr.headsOfAny marked es
  | .rule name => [name]

/-- The heads of expressions in a row, as far as those before them may consume nothing. -/
def Expr.headsInTurn (marked : ρ → Bool) : List (Expr ρ ν ε) → List ρ
  | [] => []
  | e :: es =>
    e.heads marked ++ if e.mayTakeNothing marked then Expr.headsInTurn marked es else []

def Expr.headsOfAny (marked : ρ → Bool) : List (Expr ρ ν ε) → List ρ
  | [] => []
  | e :: es => e.heads marked ++ Expr.headsOfAny marked es

end

variable {marked : ρ → Bool} {env : ρ → Parser ν ε} {c : Cursor} {m : Match ν}

theorem Expr.allMayTakeNothing_iff :
    Expr.allMayTakeNothing marked es = true ↔ ∀ e ∈ es, e.mayTakeNothing marked = true := by
  induction es with
  | nil => simp [Expr.allMayTakeNothing]
  | cons e es ih => simp [Expr.allMayTakeNothing, ih]

theorem Expr.anyMayTakeNothing_iff :
    Expr.anyMayTakeNothing marked es = true ↔ ∃ e ∈ es, e.mayTakeNothing marked = true := by
  induction es with
  | nil => simp [Expr.anyMayTakeNothing]
  | cons e es ih => simp [Expr.anyMayTakeNothing, ih]

theorem Expr.mem_headsOfAny :
    name ∈ Expr.headsOfAny marked es ↔ ∃ e ∈ es, name ∈ e.heads marked := by
  induction es with
  | nil => simp [Expr.headsOfAny]
  | cons e es ih => simp [Expr.headsOfAny, ih]

/-- The heads of an element count if all elements before it may consume nothing. -/
theorem Expr.mem_headsInTurn {before after : List (Expr ρ ν ε)}
    (hbefore : ∀ earlier ∈ before, earlier.mayTakeNothing marked = true)
    (h : name ∈ e.heads marked) : name ∈ Expr.headsInTurn marked (before ++ e :: after) := by
  induction before with
  | nil => exact List.mem_append_left _ h
  | cons first before ih =>
    obtain ⟨hfirst, hrest⟩ := List.forall_mem_cons.mp hbefore
    rw [List.cons_append, Expr.headsInTurn, if_pos hfirst]
    exact List.mem_append_right _ (ih hrest)

/-- One character always takes bytes. -/
theorem consumed_ne_zero_of_finds_any (h : Finds ((Expr.any : Expr ρ ν ε).run env) c m) :
    m.consumed ≠ 0 := by
  obtain ⟨events, h⟩ := h
  rw [Expr.run] at h
  split at h
  · cases h
  · next ch rest hrest =>
    have hfront : c.rest = [ch] ++ rest := hrest
    have hsize : Text.byteSize [ch] = ch.utf8Size := by simp
    rw [← hsize, take_of_rest_eq hfront] at h
    cases h
    rw [Reading.leaf, Match.leaf, hsize]
    exact Nat.ne_of_gt ch.utf8Size_pos

/-- A literal takes its own bytes. -/
theorem consumed_of_finds_literal {text : String}
    (h : Finds ((Expr.literal text : Expr ρ ν ε).run env) c m) :
    m.consumed = text.utf8ByteSize := by
  obtain ⟨events, h⟩ := h
  rw [Expr.run] at h
  split at h
  · unfold take at h
    split at h
    · cases h
      rfl
    · cases h
  · cases h

/-- In a row that consumed nothing, no match consumed anything. -/
theorem Row.forall_of_total_eq_zero {P : Expr ρ ν ε → Cursor → Match ν → Prop} {c' : Cursor}
    {ms : List (Match ν)} (h : Row P es c ms c') (htotal : total ms = 0) :
    ∀ e ∈ es, ∃ c m, P e c m ∧ m.consumed = 0 := by
  induction h with
  | nil => exact List.forall_mem_nil _
  | @cons e es c c' c'' m ms hm _ _ ih =>
    rw [total_cons, Nat.add_eq_zero_iff] at htotal
    exact List.forall_mem_cons.mpr ⟨⟨c, m, hm, htotal.1⟩, ih htotal.2⟩

/-- The elements of a sequence that consumes nothing consume nothing. -/
theorem SpansRow.forall_of_consumed_eq_zero (h : SpansRow env es c m) (hzero : m.consumed = 0) :
    ∀ e ∈ es, ∃ c m, Finds (e.run env) c m ∧ m.consumed = 0 := by
  obtain ⟨c', hrow⟩ := h.row
  exact hrow.forall_of_total_eq_zero (h.consumed ▸ hzero)

mutual

/-- An expression that matches without consuming may do so by its form, if all rules that do so are
marked. -/
theorem Expr.mayTakeNothing_of_finds
    (henv : ∀ name c m, Finds (env name) c m → m.consumed = 0 → marked name = true) :
    ∀ (e : Expr ρ ν ε) (c : Cursor) (m : Match ν), Finds (e.run env) c m → m.consumed = 0 →
      e.mayTakeNothing marked = true
  | .any, _, _, h, hzero => absurd hzero (consumed_ne_zero_of_finds_any h)
  | .literal text, _, _, h, hzero => by
    rw [consumed_of_finds_literal h, String.utf8ByteSize_eq_zero_iff] at hzero
    simp [Expr.mayTakeNothing, hzero]
  | .endOfText, _, _, _, _ => rfl
  | .pattern _, _, _, _, _ => rfl
  | .notAhead _, _, _, _, _ => rfl
  | .ahead _, _, _, _, _ => rfl
  | .zeroOrMore _, _, _, _, _ => rfl
  | .sequence es, _, _, h, hzero => by
    refine Expr.allMayTakeNothing_iff.mpr fun e he => ?_
    obtain ⟨c, m, hm, hm0⟩ := (spansRow_sequence h).forall_of_consumed_eq_zero hzero e he
    exact Expr.mayTakeNothing_of_mem henv es e he c m hm hm0
  | .firstOf es, c, m, h, hzero => by
    obtain ⟨before, e, after, rfl, -, hm⟩ := exists_of_finds_runFirst h
    have he : e ∈ before ++ e :: after := by simp
    exact Expr.anyMayTakeNothing_iff.mpr
      ⟨e, he, Expr.mayTakeNothing_of_mem henv _ e he c m hm hzero⟩
  | .oneOrMore body, _, _, h, hzero => by
    obtain ⟨hspans, hne, -⟩ := spansRow_oneOrMore h
    have hbody : body ∈ List.replicate _ body :=
      List.mem_replicate.mpr ⟨mt List.length_eq_zero_iff.mp hne, rfl⟩
    obtain ⟨c, m, hm, hm0⟩ := hspans.forall_of_consumed_eq_zero hzero body hbody
    exact Expr.mayTakeNothing_of_finds henv body c m hm hm0
  | .onMatch body _, c, _, h, hzero => by
    obtain ⟨found, hfound, rfl⟩ := finds_onMatch.mp h
    exact Expr.mayTakeNothing_of_finds henv body c found hfound hzero
  | .rule name, c, m, h, hzero => henv name c m h hzero

theorem Expr.mayTakeNothing_of_mem
    (henv : ∀ name c m, Finds (env name) c m → m.consumed = 0 → marked name = true) :
    ∀ (es : List (Expr ρ ν ε)), ∀ e ∈ es, ∀ (c : Cursor) (m : Match ν), Finds (e.run env) c m →
      m.consumed = 0 → e.mayTakeNothing marked = true
  | [] => List.forall_mem_nil _
  | e :: es => List.forall_mem_cons.mpr
      ⟨Expr.mayTakeNothing_of_finds henv e, Expr.mayTakeNothing_of_mem henv es⟩

end

end Form

namespace Grammar

variable {g : Grammar ρ ν ε} {marked : ρ → Bool}

/-- Every rule that may match without consuming by its form is marked. -/
def IsMarking (g : Grammar ρ ν ε) (marked : ρ → Bool) : Prop :=
  ∀ name, (g.body name).mayTakeNothing marked = true → marked name = true

theorem IsMarking.of_rule (h : g.IsMarking marked) (depth : Nat) (name : ρ) (c : Cursor)
    (m : Match ν) (hm : Finds (g.parser depth name) c m) (hzero : m.consumed = 0) :
    marked name = true := by
  induction depth generalizing name c m with
  | zero =>
    obtain ⟨events, hm⟩ := hm
    cases hm
  | succ depth ih => exact h name (Expr.mayTakeNothing_of_finds ih (g.body name) c m hm hzero)

/-- What can match without consuming may do so by its form. -/
theorem IsMarking.mayTakeNothing (h : g.IsMarking marked) (he : g.CanTakeNothing e) :
    e.mayTakeNothing marked = true := by
  obtain ⟨depth, c, m, hm, hzero⟩ := he
  exact Expr.mayTakeNothing_of_finds (h.of_rule depth) e c m hm hzero

/-- All calls are found by their form. -/
theorem IsMarking.mem_heads (h : g.IsMarking marked) (hcall : g.Calls e name) :
    name ∈ e.heads marked := by
  induction hcall with
  | notAhead _ ih => exact ih
  | ahead _ ih => exact ih
  | sequence hbefore _ ih =>
    exact Expr.mem_headsInTurn (fun earlier he => h.mayTakeNothing (hbefore earlier he)) ih
  | firstOf he _ ih => exact Expr.mem_headsOfAny.mpr ⟨_, he, ih⟩
  | zeroOrMore _ ih => exact ih
  | oneOrMore _ ih => exact ih
  | onMatch _ ih => exact ih
  | rule => exact List.mem_singleton_self _

/-- Ranks that fall along the heads of the rules show that a grammar is not left recursive. -/
theorem IsMarking.not_leftRecursive (h : g.IsMarking marked) {rank : ρ → Nat}
    (hrank : ∀ name, ∀ inner ∈ (g.body name).heads marked, rank inner < rank name) :
    ¬g.LeftRecursive :=
  not_leftRecursive_of_rank fun name inner hcall => hrank name inner (h.mem_heads hcall)

end Grammar

end WikiMarkup.Peg
