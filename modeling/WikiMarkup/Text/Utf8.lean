/-!
# Sizes in UTF-8

Offsets into a text count the bytes of its UTF-8 form, while the text itself is handled as a list
of characters. This module relates the two: the size of a list of characters, and the cut of a list
after a given number of bytes, which exists only where no character is cut in two.
-/

namespace WikiMarkup.Text

/-- Bytes that the characters take in UTF-8. -/
def byteSize (cs : List Char) : Nat :=
  cs.foldl (fun n c => n + c.utf8Size) 0

theorem foldl_utf8Size (cs : List Char) (n : Nat) :
    cs.foldl (fun n c => n + c.utf8Size) n = n + byteSize cs := by
  induction cs generalizing n with
  | nil => rfl
  | cons c cs ih =>
    have h : byteSize (c :: cs) = 0 + c.utf8Size + byteSize cs := ih _
    rw [List.foldl_cons, ih, h]
    omega

@[simp] theorem byteSize_nil : byteSize [] = 0 := rfl

@[simp] theorem byteSize_cons (c : Char) (cs : List Char) :
    byteSize (c :: cs) = c.utf8Size + byteSize cs := by
  rw [byteSize, List.foldl_cons, foldl_utf8Size]
  omega

@[simp] theorem byteSize_append (xs ys : List Char) :
    byteSize (xs ++ ys) = byteSize xs + byteSize ys := by
  induction xs with
  | nil => simp
  | cons c xs ih => simp [ih]; omega

@[simp] theorem byteSize_reverse (cs : List Char) : byteSize cs.reverse = byteSize cs := by
  induction cs with
  | nil => rfl
  | cons c cs ih => simp [ih]; omega

theorem utf8ByteSize_ofList (cs : List Char) : (String.ofList cs).utf8ByteSize = byteSize cs := by
  induction cs with
  | nil => simp
  | cons c cs ih =>
    rw [byteSize_cons, ← ih, ← List.singleton_append, String.ofList_append,
      String.utf8ByteSize_append, ← String.singleton_eq_ofList, String.utf8ByteSize_singleton]

@[simp] theorem byteSize_toList (s : String) : byteSize s.toList = s.utf8ByteSize := by
  rw [← utf8ByteSize_ofList, String.ofList_toList]

/-- Only the empty list takes no bytes. -/
@[simp] theorem byteSize_eq_zero {cs : List Char} : byteSize cs = 0 ↔ cs = [] := by
  cases cs with
  | nil => simp
  | cons c cs =>
    have := c.utf8Size_pos
    simp only [byteSize_cons, List.cons_ne_nil, iff_false]
    omega

/-- Move the first `n` bytes of the list onto `taken`, the last one on top; nothing if the list is
shorter, or if the cut would fall inside a character. -/
def splitBytes (taken : List Char) : List Char → Nat → Option (List Char × List Char)
  | rest, 0 => some (taken, rest)
  | [], _ + 1 => none
  | c :: rest, n + 1 =>
    if c.utf8Size ≤ n + 1 then splitBytes (c :: taken) rest (n + 1 - c.utf8Size) else none

@[simp] theorem splitBytes_zero (taken rest : List Char) :
    splitBytes taken rest 0 = some (taken, rest) := by
  cases rest <;> rfl

/-- A cut after the bytes of some characters falls behind these characters. -/
theorem splitBytes_append (taken front rest : List Char) :
    splitBytes taken (front ++ rest) (byteSize front) = some (front.reverse ++ taken, rest) := by
  induction front generalizing taken with
  | nil => simp
  | cons c front ih =>
    obtain ⟨n, hn⟩ : ∃ n, byteSize (c :: front) = n + 1 := by
      have := c.utf8Size_pos
      exact ⟨byteSize (c :: front) - 1, by rw [byteSize_cons]; omega⟩
    have hle : c.utf8Size ≤ n + 1 := by
      rw [← hn, byteSize_cons]
      omega
    have hsub : n + 1 - c.utf8Size = byteSize front := by
      rw [← hn, byteSize_cons]
      omega
    rw [hn, List.cons_append, splitBytes, if_pos hle, hsub, ih]
    simp

/-- A cut loses nothing and takes exactly the bytes asked for. -/
theorem splitBytes_eq_some {taken rest t r : List Char} {n : Nat}
    (h : splitBytes taken rest n = some (t, r)) :
    ∃ front, rest = front ++ r ∧ t = front.reverse ++ taken ∧ byteSize front = n := by
  induction rest generalizing taken n with
  | nil =>
    cases n with
    | zero => simp at h; exact ⟨[], by simp [h]⟩
    | succ n => simp [splitBytes] at h
  | cons c rest ih =>
    cases n with
    | zero => simp at h; exact ⟨[], by simp [h]⟩
    | succ n =>
      rw [splitBytes] at h
      split at h
      · obtain ⟨front, hrest, ht, hsize⟩ := ih h
        exact ⟨c :: front, by simp [hrest], by simp [ht], by simp [hsize]; omega⟩
      · contradiction

/-- A cut of at least one byte shortens the list. -/
theorem length_lt_of_splitBytes {taken rest t r : List Char} {n : Nat}
    (h : splitBytes taken rest n = some (t, r)) (hn : 0 < n) : r.length < rest.length := by
  obtain ⟨front, rfl, _, hsize⟩ := splitBytes_eq_some h
  cases front with
  | nil => simp at hsize; omega
  | cons c front =>
    simp only [List.cons_append, List.length_cons, List.length_append]
    omega

end WikiMarkup.Text
