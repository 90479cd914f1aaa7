import WikiMarkup.Proofs.Peg.Rounds

/-!
# Text that is not looked at

A reader frames a tail if it reads a text followed by the tail as it reads the text alone, and
leaves the tail. Sequences, repetitions and transforms keep this; a pattern of one character frames
every tail that does not start with such a character.
-/

namespace WikiMarkup.Peg

variable {ρ ν ε : Type} {tail : List Char}

/-- The same reading of a text that goes on. -/
def Reading.extend (tail : List Char) (r : Reading ν) : Reading ν :=
  { r with rest := r.rest ++ tail }

/-- The same stretch of a text that goes on. -/
def Stretch.extend (tail : List Char) (s : Stretch ν) : Stretch ν :=
  { s with rest := s.rest ++ tail }

/-- The reader does not look at the tail when it follows the text. -/
def Reader.Frames (s : Reader ν) (tail : List Char) : Prop :=
  ∀ cs, s (cs ++ tail) = (s cs).map (.extend tail)

namespace Reader.Frames

variable {s : Reader ν}

theorem readRounds (h : s.Frames tail) (cs : List Char) :
    Peg.readRounds s (cs ++ tail) = (Peg.readRounds s cs).extend tail := by
  fun_induction Peg.readRounds s cs with
  | case1 cs hnone =>
    rw [Peg.readRounds, h cs, hnone]
    rfl
  | case2 cs r hr hlt ih =>
    rw [Peg.readRounds, h cs, hr]
    have hlt' : (r.rest ++ tail).length < (cs ++ tail).length := by simpa using hlt
    simp only [Option.map_some, Reading.extend, if_pos hlt', ih]
    rfl
  | case3 cs r hr hnlt =>
    rw [Peg.readRounds, h cs, hr]
    have hnlt' : ¬(r.rest ++ tail).length < (cs ++ tail).length := by simpa using hnlt
    simp only [Option.map_some, Reading.extend, if_neg hnlt']
    rfl

theorem oneOrMore (h : s.Frames tail) : Frames (readOneOrMore s) tail := by
  intro cs
  rw [readOneOrMore, readOneOrMore, h cs]
  cases s cs with
  | none => rfl
  | some r =>
    have hfront : (r.extend tail).front = r.front := rfl
    have hrest : (r.extend tail).rest = r.rest ++ tail := rfl
    simp only [Option.map_some, hfront, hrest, h.readRounds r.rest]
    split <;> rfl

variable {readers : ρ → Reader ν}

theorem readEach {es : List (Expr ρ ν ε)} (h : ∀ e ∈ es, Frames (e.read readers) tail)
    (cs : List Char) :
    Expr.readEach readers es (cs ++ tail) = (Expr.readEach readers es cs).map (.extend tail) := by
  induction es generalizing cs with
  | nil => rfl
  | cons e es ih =>
    have hfirst := h e (List.mem_cons_self ..) cs
    have hrest := ih fun e he => h e (List.mem_cons_of_mem _ he)
    rw [Expr.readEach, Expr.readEach, hfirst]
    cases e.read readers cs with
    | none => rfl
    | some r =>
      have hnext := hrest r.rest
      simp only [Option.map_some, Option.bind_some, Reading.extend, hnext, Option.map_map]
      rfl

theorem sequence {es : List (Expr ρ ν ε)} (h : ∀ e ∈ es, Frames (e.read readers) tail) :
    Frames ((Expr.sequence es).read readers) tail := by
  intro cs
  rw [Expr.read, Expr.read, readEach h cs, Option.map_map, Option.map_map]
  rfl

theorem firstOf {es : List (Expr ρ ν ε)} (h : ∀ e ∈ es, Frames (e.read readers) tail) :
    Frames ((Expr.firstOf es).read readers) tail := by
  intro cs
  rw [Expr.read, Expr.read]
  induction es with
  | nil => rfl
  | cons e es ih =>
    have hfirst := h e (List.mem_cons_self ..) cs
    have hrest := ih fun e he => h e (List.mem_cons_of_mem _ he)
    rw [Expr.readFirst_cons, Expr.readFirst_cons, hfirst, hrest]
    cases e.read readers cs <;> rfl

theorem zeroOrMore {e : Expr ρ ν ε} (h : Frames (e.read readers) tail) :
    Frames ((Expr.zeroOrMore e).read readers) tail := by
  intro cs
  rw [Expr.read, Expr.read, h.readRounds cs]
  rfl

theorem onMatch {e : Expr ρ ν ε} {transform : Transform ν ε} (h : Frames (e.read readers) tail) :
    Frames ((Expr.onMatch e transform).read readers) tail := by
  intro cs
  rw [Expr.read, Expr.read, h cs, Option.map_map, Option.map_map]
  rfl

end Reader.Frames

/-! ## Literals and patterns of one character -/

/-- A prefix does not go on into a text that starts with none of its characters. -/
theorem isPrefixOf_append {text cs : List Char} (h : ∀ c, tail.head? = some c → c ∉ text) :
    text.isPrefixOf (cs ++ tail) = text.isPrefixOf cs := by
  rw [Bool.eq_iff_iff, List.isPrefixOf_iff_prefix, List.isPrefixOf_iff_prefix]
  constructor
  · intro happend
    rcases List.prefix_or_prefix_of_prefix happend (List.prefix_append cs tail) with
      hcs | ⟨more, rfl⟩
    · exact hcs
    · -- The rest of the prefix would have to be at the head of the tail.
      rw [List.prefix_append_right_inj] at happend
      obtain ⟨rest, rfl⟩ := happend
      cases more with
      | nil => simp
      | cons c more => exact absurd (by simp) (h c rfl)
  · intro hcs
    exact hcs.trans (List.prefix_append cs tail)

theorem frames_literal (text : String) (readers : ρ → Reader ν)
    (h : ∀ c, tail.head? = some c → c ∉ text.toList) :
    Reader.Frames ((Expr.literal text : Expr ρ ν ε).read readers) tail := by
  intro cs
  rw [Expr.read, Expr.read, isPrefixOf_append h]
  split
  · next hpre =>
    obtain ⟨rest, rfl⟩ := List.isPrefixOf_iff_prefix.mp hpre
    simp [List.append_assoc, Reading.leaf, Reading.extend]
  · rfl

/-- A pattern of one character looks at the head of the text. -/
theorem find?_anchored_chars (set : CharSet) (cs : List Char) :
    (Regex.anchored (.chars set)).find? cs =
      if cs.head?.any set.contains then some (0, 1) else none := by
  cases cs with
  | nil => simp [Regex.find?, Regex.anchored, Regex.sequence, Regex.lengths]
  | cons c cs =>
    cases h : set.contains c <;>
      simp [Regex.find?, Regex.anchored, Regex.sequence, Regex.lengths, Regex.isAnchored, h,
        List.eraseDups_cons]

theorem takesOne_pattern (set : CharSet) (readers : ρ → Reader ν) :
    Reader.TakesOne ((Expr.pattern (Regex.anchored (.chars set)) : Expr ρ ν ε).read readers)
      fun cs => cs.head?.any set.contains where
  nil := by simp [Expr.read, find?_anchored_chars]
  stop c cs h := by simp_all [Expr.read, find?_anchored_chars]
  take c cs h := by
    refine ⟨.leaf (String.ofList [c]) (Text.byteSize [c]), ?_, by simp [Match.leaf]⟩
    simp_all [Expr.read, find?_anchored_chars, Reading.leaf]

theorem frames_pattern {set : CharSet} (readers : ρ → Reader ν)
    (h : tail.head?.any set.contains = false) :
    Reader.Frames ((Expr.pattern (Regex.anchored (.chars set)) : Expr ρ ν ε).read readers)
      tail := by
  intro cs
  cases cs with
  | nil => simp_all [Expr.read, find?_anchored_chars]
  | cons c cs =>
    cases hc : set.contains c <;>
      simp [Expr.read, find?_anchored_chars, hc, Reading.leaf, Reading.extend]

end WikiMarkup.Peg
