import WikiMarkup.Proofs.Rules.Leaf

/-!
# Pieces of a line

A line is cut into single delimiters and the runs of other characters between them. A list of
pieces is proper if it is such a cut, that is, if its runs are not empty, hold no delimiter and are
not next to each other; then cutting its characters gives it back.
-/

namespace WikiMarkup

inductive Piece where
  | delim (d : Delimiter)
  | run (chars : List Char)
deriving DecidableEq, Repr

namespace Piece

def chars : Piece → List Char
  | .delim d => [d.char]
  | .run cs => cs

def startsRun : List Piece → Bool
  | .run _ :: _ => true
  | _ => false

theorem startsRun_iff {ps : List Piece} :
    startsRun ps = true ↔ ∃ run rest, ps = .run run :: rest := by
  cases ps with
  | nil => simp [startsRun]
  | cons p ps => cases p <;> simp [startsRun]

/-- Put a character that is no delimiter before the pieces. -/
def push (c : Char) : List Piece → List Piece
  | .run cs :: ps => .run (c :: cs) :: ps
  | ps => .run [c] :: ps

/-- The single delimiters of a line and the longest runs between them. -/
def cut : List Char → List Piece
  | [] => []
  | c :: cs =>
    match Delimiter.ofChar? c with
    | some d => .delim d :: cut cs
    | none => push c (cut cs)

/-- All characters of the pieces, in order. -/
def flat (ps : List Piece) : List Char := ps.flatMap chars

@[simp] theorem flat_nil : flat [] = [] := rfl

@[simp] theorem flat_delim (d : Delimiter) (ps : List Piece) :
    flat (.delim d :: ps) = d.char :: flat ps := rfl

@[simp] theorem flat_run (cs : List Char) (ps : List Piece) :
    flat (.run cs :: ps) = cs ++ flat ps := rfl

@[simp] theorem flat_append (ps qs : List Piece) : flat (ps ++ qs) = flat ps ++ flat qs :=
  List.flatMap_append

theorem mem_flat {c : Char} {ps : List Piece} : c ∈ flat ps ↔ ∃ p ∈ ps, c ∈ p.chars :=
  List.mem_flatMap

@[simp] theorem flat_push (c : Char) (ps : List Piece) : flat (push c ps) = c :: flat ps := by
  unfold push
  split <;> simp

@[simp] theorem flat_cut (cs : List Char) : flat (cut cs) = cs := by
  induction cs with
  | nil => rfl
  | cons c cs ih =>
    unfold cut
    split
    · next hd => rw [flat_delim, ih, Delimiter.char_of_ofChar? hd]
    · rw [flat_push, ih]

/-- Runs are not empty, hold no delimiter and are not next to each other. -/
def Proper : List Piece → Prop
  | [] => True
  | .delim _ :: ps => Proper ps
  | .run cs :: ps => cs ≠ [] ∧ (∀ d : Delimiter, d.char ∉ cs) ∧ startsRun ps = false ∧ Proper ps

theorem Proper.tail {p : Piece} {ps : List Piece} (h : Proper (p :: ps)) : Proper ps := by
  cases p with
  | delim d => exact h
  | run cs => exact h.2.2.2

theorem Proper.plain_of_mem {ps : List Piece} (h : Proper ps) {cs : List Char}
    (hcs : .run cs ∈ ps) (d : Delimiter) : d.char ∉ cs := by
  induction ps with
  | nil => cases hcs
  | cons p ps ih =>
    rcases List.mem_cons.mp hcs with rfl | hcs
    · exact h.2.1 d
    · exact ih h.tail hcs

theorem Proper.push {c : Char} {ps : List Piece} (h : Proper ps)
    (hc : Delimiter.ofChar? c = none) : Proper (push c ps) := by
  have hne := Delimiter.ofChar?_eq_none_iff.mp hc
  have hsingle : ∀ d : Delimiter, d.char ∉ [c] := fun d hd =>
    hne d (List.mem_singleton.mp hd).symm
  unfold Piece.push
  split
  · next cs rest =>
    obtain ⟨-, hplain, hrest⟩ := h
    refine ⟨List.cons_ne_nil c cs, fun d hd => ?_, hrest⟩
    rcases List.mem_cons.mp hd with hd | hd
    · exact hne d hd.symm
    · exact hplain d hd
  · next hnot =>
    refine ⟨List.cons_ne_nil c [], hsingle, ?_, h⟩
    unfold startsRun
    split
    · exact absurd rfl (hnot _ _)
    · rfl

theorem proper_cut (cs : List Char) : Proper (cut cs) := by
  induction cs with
  | nil => trivial
  | cons c cs ih =>
    unfold cut
    split
    · exact ih
    · next hc => exact ih.push hc

/-- A run is pushed onto the pieces after it character by character. -/
theorem cut_run_append {cs : List Char} (hne : cs ≠ []) (hplain : ∀ d : Delimiter, d.char ∉ cs)
    {rest : List Char} (hrest : startsRun (cut rest) = false) :
    cut (cs ++ rest) = .run cs :: cut rest := by
  induction cs with
  | nil => exact absurd rfl hne
  | cons c cs ih =>
    have hc : Delimiter.ofChar? c = none :=
      Delimiter.ofChar?_eq_none_iff.mpr fun d hd => hplain d (by simp [hd])
    have hplain' : ∀ d : Delimiter, d.char ∉ cs := fun d hd => hplain d (List.mem_cons_of_mem c hd)
    rw [List.cons_append, cut, hc]
    by_cases hcs : cs = []
    · subst hcs
      unfold startsRun at hrest
      unfold push
      split at hrest
      · cases hrest
      · simp_all
    · rw [ih hcs hplain']
      rfl

/-- Proper pieces are the cut of their characters. -/
theorem cut_flat {ps : List Piece} (h : Proper ps) : cut (flat ps) = ps := by
  induction ps with
  | nil => rfl
  | cons p ps ih =>
    have hps := ih h.tail
    cases p with
    | delim d => simp [cut, hps]
    | run cs =>
      obtain ⟨hne, hplain, hnext, -⟩ := h
      rw [flat_run, cut_run_append hne hplain (by rwa [hps]), hps]

end Piece

end WikiMarkup
