import WikiMarkup.Regex.Basic

/-!
# Patterns in writing

A pattern is written with the characters themselves, `.` for any character within a line, classes
such as `[a-z_]` and `[^a]`, groups `(..)` and `(?:..)`, alternatives with `|`, the repetitions `*`,
`+` and `?`, and `^` for the start of the text. A text is first cut into tokens; these are then read
with a stack of the groups that are still open.

All repetitions are greedy: a question mark behind a repetition, which would make it a lazy one, is
refused.

Inside a class the leading hyphens, a hyphen before the closing bracket and a closing bracket that
comes first stand for themselves.
-/

namespace WikiMarkup.Regex

/-- Why a text is not a pattern. -/
inductive SourceError where
  | unclosedGroup
  | unopenedGroup
  | unclosedClass
  /-- The first end of a range comes after its second. -/
  | emptyRange
  | nothingToRepeat
  /-- The text uses an operator that this language of patterns lacks. -/
  | unsupported (c : Char)
deriving DecidableEq, Repr

inductive Token where
  | one (set : CharSet)
  | opening
  | closing
  | bar
  | star
  | plus
  | question
  | caret
deriving DecidableEq, Repr

/-! ## Classes -/

/-- Read the items of a class up to its closing bracket; the ranges come latest first. -/
def readItems (ranges : List (Char × Char)) :
    List Char → Except SourceError (List (Char × Char) × List Char)
  | [] => .error .unclosedClass
  | ']' :: cs => .ok (ranges, cs)
  | '[' :: _ => .error (.unsupported '[')
  | '\\' :: _ => .error (.unsupported '\\')
  | '&' :: '&' :: _ => .error (.unsupported '&')
  | '-' :: '-' :: _ => .error (.unsupported '-')
  | '~' :: '~' :: _ => .error (.unsupported '~')
  | c :: '-' :: ']' :: cs => .ok (('-', '-') :: (c, c) :: ranges, cs)
  | c :: '-' :: '-' :: cs => readItems ((c, c) :: ranges) ('-' :: '-' :: cs)
  | lo :: '-' :: hi :: cs =>
    if hi = '\\' then .error (.unsupported '\\')
    else if lo ≤ hi then readItems ((lo, hi) :: ranges) cs
    else .error .emptyRange
  | c :: cs => readItems ((c, c) :: ranges) cs
termination_by cs => cs.length

theorem length_lt_of_readItems {ranges out : List (Char × Char)} {cs rest : List Char}
    (h : readItems ranges cs = .ok (out, rest)) : rest.length < cs.length := by
  fun_induction readItems ranges cs <;> simp_all <;> omega

/-- Hyphens at the head of a class stand for themselves. -/
def readHyphens (ranges : List (Char × Char)) :
    List Char → Except SourceError (List (Char × Char) × List Char)
  | '-' :: cs => readHyphens (('-', '-') :: ranges) cs
  | ']' :: cs =>
    if ranges.isEmpty then readItems [(']', ']')] cs else readItems ranges (']' :: cs)
  | cs => readItems ranges cs

theorem length_lt_of_readHyphens {ranges out : List (Char × Char)} {cs rest : List Char}
    (h : readHyphens ranges cs = .ok (out, rest)) : rest.length < cs.length := by
  fun_induction readHyphens ranges cs with
  | case1 ranges cs ih => have := ih h; simp; omega
  | case2 ranges cs _ => have := length_lt_of_readItems h; simp; omega
  | case3 ranges cs _ => exact length_lt_of_readItems h
  | case4 ranges cs _ _ => exact length_lt_of_readItems h

/-- Read a class whose opening bracket, and hat if there is one, are behind. -/
def readSet (negated : Bool) (cs : List Char) : Except SourceError (CharSet × List Char) :=
  match readHyphens [] cs with
  | .error e => .error e
  | .ok (ranges, rest) => .ok (⟨ranges.reverse, negated⟩, rest)

theorem length_lt_of_readSet {negated : Bool} {set : CharSet} {cs rest : List Char}
    (h : readSet negated cs = .ok (set, rest)) : rest.length < cs.length := by
  unfold readSet at h
  split at h
  · cases h
  · cases h; exact length_lt_of_readHyphens ‹_›

/-- Read a class whose opening bracket is behind. -/
def readClass : List Char → Except SourceError (CharSet × List Char)
  | '^' :: cs => readSet true cs
  | cs => readSet false cs

theorem length_lt_of_readClass {set : CharSet} {cs rest : List Char}
    (h : readClass cs = .ok (set, rest)) : rest.length < cs.length := by
  unfold readClass at h
  split at h
  · have := length_lt_of_readSet h; simp; omega
  · exact length_lt_of_readSet h

/-! ## Tokens -/

/-- Cut a text into tokens. -/
def tokens (cs : List Char) : Except SourceError (List Token) :=
  match cs with
  | [] => .ok []
  | '(' :: '?' :: ':' :: cs => (tokens cs).map (.opening :: ·)
  | '(' :: '?' :: _ => .error (.unsupported '?')
  | '(' :: cs => (tokens cs).map (.opening :: ·)
  | ')' :: cs => (tokens cs).map (.closing :: ·)
  | '|' :: cs => (tokens cs).map (.bar :: ·)
  | '*' :: cs => (tokens cs).map (.star :: ·)
  | '+' :: cs => (tokens cs).map (.plus :: ·)
  | '?' :: cs => (tokens cs).map (.question :: ·)
  | '^' :: cs => (tokens cs).map (.caret :: ·)
  | '.' :: cs => (tokens cs).map (.one .anyInLine :: ·)
  | '[' :: cs =>
    match h : readClass cs with
    | .error e => .error e
    | .ok (set, rest) =>
      have := length_lt_of_readClass h
      (tokens rest).map (.one set :: ·)
  | c :: cs =>
    if c = '\\' ∨ c = '$' ∨ c = '\x7b' ∨ c = '\x7d' then .error (.unsupported c)
    else (tokens cs).map (.one (.single c) :: ·)
termination_by cs.length

/-! ## Groups -/

/-- A group that is being read: its finished branches and the pieces of the branch at hand, both
latest first. -/
structure Frame where
  branches : List Regex := []
  pieces : List Regex := []
deriving Repr

namespace Frame

def push (f : Frame) (r : Regex) : Frame := { f with pieces := r :: f.pieces }

/-- Finish the branch at hand. -/
def nextBranch (f : Frame) : Frame := ⟨sequence f.pieces.reverse :: f.branches, []⟩

def regex (f : Frame) : Regex :=
  match (sequence f.pieces.reverse :: f.branches).reverse with
  | [] => .empty
  | first :: rest => choice first rest

/-- Repeat the latest piece; `ts` is what follows the repetition. -/
def repeatLast (f : Frame) (repetition : Regex → Regex) (ts : List Token) :
    Except SourceError Frame :=
  match f.pieces with
  | [] => .error .nothingToRepeat
  | r :: pieces =>
    if ts.head? = some .question then .error (.unsupported '?')
    else .ok { f with pieces := repetition r :: pieces }

end Frame

/-- Read tokens into the group at hand, with the enclosing groups still open. -/
def readTokens (enclosing : List Frame) (f : Frame) : List Token → Except SourceError Regex
  | [] => if enclosing.isEmpty then .ok f.regex else .error .unclosedGroup
  | .one set :: ts => readTokens enclosing (f.push (.chars set)) ts
  | .caret :: ts => readTokens enclosing (f.push .start) ts
  | .bar :: ts => readTokens enclosing f.nextBranch ts
  | .opening :: ts => readTokens (f :: enclosing) {} ts
  | .closing :: ts =>
    match enclosing with
    | [] => .error .unopenedGroup
    | g :: enclosing => readTokens enclosing (g.push f.regex) ts
  | .star :: ts => do readTokens enclosing (← f.repeatLast Regex.star ts) ts
  | .plus :: ts => do readTokens enclosing (← f.repeatLast Regex.plus ts) ts
  | .question :: ts => do readTokens enclosing (← f.repeatLast Regex.optional ts) ts

/-- The pattern that a text writes. -/
def ofSource (source : String) : Except SourceError Regex := do
  readTokens [] {} (← tokens source.toList)

/-- The pattern that a text writes, at the start of the text only: the text is put into a group
after `^`. -/
def ofSourceAnchored (source : String) : Except SourceError Regex :=
  ofSource ("^(?:" ++ source ++ ")")

end WikiMarkup.Regex
