import WikiMarkup.Format.Tag

/-!
# Escaped texts

The characters that could be taken for part of a tag, and the one that begins an escape, stand for
themselves by an escape in texts between tags. The text can be told from its escaped form.
-/

namespace WikiMarkup.Format

/-! ## Texts put together -/

/-- What a writer puts out for characters one after another goes behind what it has put out. -/
theorem toList_foldl_append (write : Char → String) (cs : List Char) (out : String) :
    (cs.foldl (fun out c => out ++ write c) out).toList =
      out.toList ++ cs.flatMap fun c => (write c).toList := by
  induction cs generalizing out with
  | nil => simp
  | cons c cs ih =>
    rw [List.foldl_cons, ih]
    simp

theorem toList_pushn (s : String) (c : Char) (n : Nat) :
    (s.pushn c n).toList = s.toList ++ List.replicate n c := by
  rw [String.pushn_eq_repeat_push]
  induction n with
  | zero => simp [Nat.repeat]
  | succ n ih =>
    rw [Nat.repeat, String.toList_push, ih, List.replicate_succ', List.append_assoc]

/-! ## Escapes -/

/-- A text with its characters escaped where they have to be. -/
def escaped (cs : List Char) : List Char := cs.flatMap fun c => (escapeTagChar c).toList

theorem toList_escapeTagText (s : String) : (escapeTagText s).toList = escaped s.toList :=
  toList_foldl_append escapeTagChar s.toList ""

/-- Put a text in the place of every occurrence of a character. -/
def replaceAll (c : Char) (text cs : List Char) : List Char :=
  cs.flatMap fun d => if d = c then text else [d]

theorem replaceAll_singleton_of_ne {c d : Char} (h : d ≠ c) (text : List Char) :
    replaceAll c text [d] = [d] := by
  simp [replaceAll, h]

/-- The four replacements that escape a text, the one of `&` first: it would take the ampersands
of the others for characters of the text. -/
def replaceInTurn (cs : List Char) : List Char :=
  replaceAll '"' "&quot;".toList (replaceAll '>' "&gt;".toList
    (replaceAll '<' "&lt;".toList (replaceAll '&' "&amp;".toList cs)))

theorem toList_escapeTagChar (c : Char) : (escapeTagChar c).toList = replaceInTurn [c] := by
  unfold escapeTagChar
  split
  · decide
  · decide
  · decide
  · decide
  · next hamp hlt hgt hquot =>
    rw [replaceInTurn, replaceAll_singleton_of_ne hamp, replaceAll_singleton_of_ne hlt,
      replaceAll_singleton_of_ne hgt, replaceAll_singleton_of_ne hquot, Char.toString_eq_singleton,
      String.toList_singleton]

/-- Escaping a text character by character comes to the replacements in turn. -/
theorem escaped_eq_replaceInTurn (cs : List Char) : escaped cs = replaceInTurn cs := by
  induction cs with
  | nil => rfl
  | cons c cs ih =>
    have happend : replaceInTurn ([c] ++ cs) = replaceInTurn [c] ++ replaceInTurn cs := by
      simp only [replaceInTurn, replaceAll, List.flatMap_append]
    rw [escaped, List.flatMap_cons, ← escaped, ih, toList_escapeTagChar, ← happend]
    rfl

/-- Undo the escaping of a text. -/
def unescape : List Char → List Char
  | '&' :: 'a' :: 'm' :: 'p' :: ';' :: cs => '&' :: unescape cs
  | '&' :: 'l' :: 't' :: ';' :: cs => '<' :: unescape cs
  | '&' :: 'g' :: 't' :: ';' :: cs => '>' :: unescape cs
  | '&' :: 'q' :: 'u' :: 'o' :: 't' :: ';' :: cs => '"' :: unescape cs
  | c :: cs => c :: unescape cs
  | [] => []

theorem unescape_escapeTagChar_append (c : Char) (cs : List Char) :
    unescape ((escapeTagChar c).toList ++ cs) = c :: unescape cs := by
  unfold escapeTagChar
  split
  · rfl
  · rfl
  · rfl
  · rfl
  · simp_all [unescape]

theorem unescape_escaped (cs : List Char) : unescape (escaped cs) = cs := by
  induction cs with
  | nil => rfl
  | cons c cs ih =>
    rw [escaped, List.flatMap_cons, unescape_escapeTagChar_append, ← escaped, ih]

/-- An escaped text begins no tag. -/
theorem not_mem_escaped (cs : List Char) : '<' ∉ escaped cs := by
  intro h
  obtain ⟨c, -, hc⟩ := List.mem_flatMap.mp h
  unfold escapeTagChar at hc
  split at hc
  · exact absurd hc (by decide)
  · exact absurd hc (by decide)
  · exact absurd hc (by decide)
  · exact absurd hc (by decide)
  · next hlt _ _ =>
    rw [Char.toString_eq_singleton, String.toList_singleton, List.mem_singleton] at hc
    exact hlt hc.symm

end WikiMarkup.Format
