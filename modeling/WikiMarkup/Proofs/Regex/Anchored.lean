import WikiMarkup.Proofs.Peg.Soundness
import WikiMarkup.Proofs.Regex.Search
import WikiMarkup.Regex.Source

/-!
# Patterns at the start of the text

A pattern that is written after `^` in a group of its own has the matches of the pattern at the
start of the text, in the same order. As an expression takes only a match at its own place, it may
search with either of the two.

The group is closed by a bracket behind the pattern, so it has to be shown that a pattern which can
be read on its own is read as a whole there: none of its classes, groups and branches goes on into
what follows it.
-/

namespace WikiMarkup

namespace Regex

/-! ## Reading a pattern in a group -/

section Source

variable {ranges out : List (Char × Char)} {set : CharSet} {cs rest : List Char}

theorem ne_nil_of_readItems (h : readItems ranges cs = .ok (out, rest)) : cs ≠ [] := by
  rintro rfl
  simp [readItems] at h

/-- A class that is closed does not look at what follows it. -/
theorem readItems_append (h : readItems ranges cs = .ok (out, rest)) (more : List Char) :
    readItems ranges (cs ++ more) = .ok (out, rest ++ more) := by
  fun_induction readItems ranges cs
  case case13 cs _ _ _ _ _ _ _ _ hrange ih =>
    -- The next character is there, for the class is still open, and it is no hyphen.
    obtain ⟨d, ds, rfl⟩ := List.exists_cons_of_ne_nil (ne_nil_of_readItems h)
    have hd : d ≠ '-' := by
      rintro rfl
      cases ds with
      | nil => simp [readItems] at h
      | cons hi ds => exact hrange hi ds rfl
    simp_all [readItems]
  all_goals simp_all [readItems]

theorem readHyphens_append (h : readHyphens ranges cs = .ok (out, rest)) (more : List Char) :
    readHyphens ranges (cs ++ more) = .ok (out, rest ++ more) := by
  fun_induction readHyphens ranges cs with
  | case1 ranges cs ih =>
    rw [List.cons_append, readHyphens]
    exact ih h
  | case2 ranges cs hempty =>
    rw [List.cons_append, readHyphens, if_pos hempty]
    exact readItems_append h more
  | case3 ranges cs hempty =>
    rw [List.cons_append, readHyphens, if_neg hempty]
    exact readItems_append h more
  | case4 ranges cs hhyphen hclosing =>
    obtain ⟨d, ds, rfl⟩ := List.exists_cons_of_ne_nil (ne_nil_of_readItems h)
    rw [List.cons_append, readHyphens]
    · exact readItems_append h more
    · rintro cs heq
      exact hhyphen ds (by simp_all)
    · rintro cs heq
      exact hclosing ds (by simp_all)

theorem readSet_append {negated : Bool} (h : readSet negated cs = .ok (set, rest))
    (more : List Char) : readSet negated (cs ++ more) = .ok (set, rest ++ more) := by
  unfold readSet at h ⊢
  split at h
  · cases h
  · next hread =>
    cases h
    rw [readHyphens_append hread more]

theorem readClass_append (h : readClass cs = .ok (set, rest)) (more : List Char) :
    readClass (cs ++ more) = .ok (set, rest ++ more) := by
  unfold readClass at h
  split at h
  · next cs =>
    rw [List.cons_append, readClass]
    exact readSet_append h more
  · next hhat =>
    have hopen : cs ≠ [] := by
      rintro rfl
      simp [readSet, readHyphens, readItems] at h
    obtain ⟨d, ds, rfl⟩ := List.exists_cons_of_ne_nil hopen
    rw [List.cons_append, readClass]
    · exact readSet_append h more
    · rintro cs heq
      exact hhat ds (by simp_all)

theorem tokens_class (h : readClass cs = .ok (set, rest)) :
    tokens ('[' :: cs) = (tokens rest).map (.one set :: ·) := by
  rw [tokens]
  split <;> simp_all

end Source

variable {r : Regex} {cs : List Char}

end Regex

namespace Peg

variable {ρ ν ε : Type} {env : ρ → Parser ν ε} {r r' : Regex}

end Peg

end WikiMarkup
