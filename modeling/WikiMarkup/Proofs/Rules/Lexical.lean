import WikiMarkup.Proofs.Rules.Reading

/-!
# Line ends, delimiters and blanks

What the smallest rules find. The rules for bold and for italics come in pairs that differ in the
delimiter alone, so a delimiter names its rules here, and what holds of one member of a pair is
stated for both.
-/

namespace WikiMarkup

open Peg

/-! ## Line ends -/

/-- The line end at the head of a text, and the text after it; the end of the text is one. -/
def lineEnd? : List Char → Option (List Char × List Char)
  | '\r' :: '\n' :: cs => some (['\r', '\n'], cs)
  | '\n' :: cs => some (['\n'], cs)
  | [] => some ([], [])
  | _ => none

@[simp] theorem lineEnd?_nil : lineEnd? [] = some ([], []) := rfl

@[simp] theorem lineEnd?_lf (cs : List Char) : lineEnd? ('\n' :: cs) = some (['\n'], cs) := rfl

@[simp] theorem lineEnd?_crlf (cs : List Char) :
    lineEnd? ('\r' :: '\n' :: cs) = some (['\r', '\n'], cs) := rfl

theorem lineEnd?_cons_eq_none {c : Char} {cs : List Char} (hlf : c ≠ '\n')
    (hcr : c = '\r' → cs.head? ≠ some '\n') : lineEnd? (c :: cs) = none := by
  unfold lineEnd?
  split <;> simp_all

theorem eq_of_lineEnd? {cs front rest : List Char} (h : lineEnd? cs = some (front, rest)) :
    cs = front ++ rest := by
  unfold lineEnd? at h
  split at h <;> cases h <;> rfl

/-- The head of a text cannot become a line end by the text being longer, nor cease to be one. -/
theorem lineEnd?_of_append {c : Char} {cs tail : List Char}
    (h : lineEnd? (c :: cs ++ tail) = none) : lineEnd? (c :: cs) = none := by
  apply lineEnd?_cons_eq_none
  · rintro rfl
    simp at h
  · rintro rfl hlf
    obtain ⟨rest, rfl⟩ : ∃ rest, cs = '\n' :: rest := by
      cases cs with
      | nil => simp at hlf
      | cons d rest => exact ⟨rest, by simpa using hlf⟩
    simp at h

/-- A line end starts no delimiter, letter or blank. -/
theorem head?_of_lineEnd? {cs : List Char} (h : (lineEnd? cs).isSome) :
    cs.head? = none ∨ cs.head? = some '\r' ∨ cs.head? = some '\n' := by
  unfold lineEnd? at h
  split at h <;> simp_all

/-! ## Delimiters -/

/-- The character around a span of bold or italics. -/
inductive Delimiter where
  | star
  | slash
deriving DecidableEq, Repr

namespace Delimiter

def char : Delimiter → Char
  | .star => '*'
  | .slash => '/'

def other : Delimiter → Delimiter
  | .star => .slash
  | .slash => .star

def ofChar? (c : Char) : Option Delimiter :=
  if c = '*' then some .star else if c = '/' then some .slash else none

/-- The node of a span between two of these delimiters. -/
def span : Delimiter → List Node → Node
  | .star => .bold
  | .slash => .italics

@[simp] theorem ofChar?_char (d : Delimiter) : ofChar? d.char = some d := by cases d <;> rfl

theorem char_of_ofChar? {c : Char} {d : Delimiter} (h : ofChar? c = some d) : c = d.char := by
  unfold ofChar? at h
  split at h
  · cases h; assumption
  · split at h
    · cases h; assumption
    · cases h

@[simp] theorem other_ne (d : Delimiter) : d.other ≠ d := by cases d <;> decide

@[simp] theorem ne_other (d : Delimiter) : d ≠ d.other := d.other_ne.symm

@[simp] theorem other_other (d : Delimiter) : d.other.other = d := by cases d <;> rfl

theorem ofChar?_eq_none_iff {c : Char} : ofChar? c = none ↔ ∀ d : Delimiter, c ≠ d.char := by
  constructor
  · rintro h d rfl
    simp at h
  · intro h
    exact (if_neg (h .star)).trans (if_neg (h .slash))

theorem head?_ofChar?_eq_none_iff {cs : List Char} :
    cs.head?.bind ofChar? = none ↔ ∀ d : Delimiter, cs.head? ≠ some d.char := by
  cases cs with
  | nil => simp
  | cons c cs => simp [ofChar?_eq_none_iff]

theorem eq_other_of_ne {d e : Delimiter} (h : e ≠ d) : e = d.other := by
  cases d <;> cases e <;> simp_all [other]

theorem char_injective : Function.Injective char := by
  intro d e h
  cases d <;> cases e <;> first | rfl | exact absurd h (by decide)

/-- Delimiters are neither line ends, nor letters, nor blanks, nor marks of headers. -/
theorem lineEnd?_cons (d : Delimiter) (cs : List Char) : lineEnd? (d.char :: cs) = none := by
  cases d <;> exact lineEnd?_cons_eq_none (by decide) (fun h => absurd h (by decide))

end Delimiter

/-- A delimiter or a line end is ahead. -/
def Stops (cs : List Char) : Prop :=
  (∃ d : Delimiter, cs.head? = some d.char) ∨ (lineEnd? cs).isSome

theorem stops_delim (d : Delimiter) (cs : List Char) : Stops (d.char :: cs) := .inl ⟨d, rfl⟩

namespace Delimiter

/-! ### The rules of a delimiter -/

/-- The delimiter itself. -/
def delimRule : Delimiter → Rule
  | .star => .boldDelim
  | .slash => .italicsDelim

/-- The end of a span: its delimiter, or the line end ahead. -/
def endRule : Delimiter → Rule
  | .star => .boldEnd
  | .slash => .italicsEnd

/-- A span that is not inside another. -/
def spanRule : Delimiter → Rule
  | .star => .bold
  | .slash => .italics

/-- What a span that is not inside another is made of. -/
def contentRule : Delimiter → Rule
  | .star => .boldContent
  | .slash => .italicsContent

/-- A span inside a span of the other delimiter. -/
def nestedRule : Delimiter → Rule
  | .star => .boldWithoutItalics
  | .slash => .italicsWithoutBold

/-- What a span inside another is made of. -/
def nestedContentRule : Delimiter → Rule
  | .star => .boldWithoutItalicsContent
  | .slash => .italicsWithoutBoldContent

end Delimiter

namespace Rule

open Delimiter

variable (d : Delimiter) (cs : List Char)

theorem body_delimRule : body d.delimRule = .literal (String.singleton d.char) := by
  cases d <;> rfl

theorem body_endRule : body d.endRule = .firstOf [.rule d.delimRule, .ahead (.rule .eol)] := by
  cases d <;> rfl

theorem body_spanRule : body d.spanRule =
    .onMatch (.sequence [.rule d.delimRule, .oneOrMore (.rule d.contentRule), .rule d.endRule])
      (gather 1 d.span) := by
  cases d <;> rfl

theorem body_contentRule : body d.contentRule =
    .onMatch (.sequence [.notAhead (.rule d.endRule),
      .firstOf [.rule .link, .rule d.other.nestedRule, .rule .text]]) (lift 1) := by
  cases d <;> rfl

theorem body_nestedRule : body d.nestedRule =
    .onMatch (.sequence [.rule d.delimRule, .oneOrMore (.rule d.nestedContentRule),
      .firstOf [.rule d.endRule, .ahead (.rule d.other.endRule)]]) (gather 1 d.span) := by
  cases d <;> rfl

theorem body_nestedContentRule : body d.nestedContentRule =
    .onMatch (.sequence [.notAhead (.rule .nestedEnd), .firstOf [.rule .link, .rule .text]])
      (lift 1) := by
  cases d <;> rfl

/-! ## What they find -/

theorem read_eol : eol.read cs = (lineEnd? cs).map fun e => .leaf e.1 e.2 := by
  rw [read_eq]
  change Expr.readFirst read [.literal "\r\n", .literal "\n", .endOfText] cs = _
  unfold lineEnd?
  split
  · simp [Expr.readFirst, Expr.read]
  · simp [Expr.readFirst, Expr.read]
  · simp [Expr.readFirst, Expr.read, Reading.leaf, Match.empty]
  · next hcrlf hlf hnil =>
    have h₁ : List.isPrefixOf ['\r', '\n'] cs = false := by
      rw [← Bool.not_eq_true, List.isPrefixOf_iff_prefix]
      rintro ⟨rest, rfl⟩
      exact hcrlf rest rfl
    have h₂ : List.isPrefixOf ['\n'] cs = false := by
      rw [← Bool.not_eq_true, List.isPrefixOf_iff_prefix]
      rintro ⟨rest, rfl⟩
      exact hlf rest rfl
    have h₃ : cs.isEmpty = false := by
      rw [List.isEmpty_eq_false_iff]
      exact hnil
    simp [Expr.readFirst, Expr.read, h₁, h₂, h₃]

theorem read_eol_eq_none_iff : eol.read cs = none ↔ lineEnd? cs = none := by
  rw [read_eol, Option.map_eq_none_iff]

theorem read_delimRule_self : d.delimRule.read (d.char :: cs) = some (.leaf [d.char] cs) := by
  rw [read_eq, body_delimRule]
  simp [Expr.read]

theorem read_delimRule_of_ne (h : cs.head? ≠ some d.char) : d.delimRule.read cs = none := by
  rw [read_eq, body_delimRule]
  cases cs with
  | nil => simp [Expr.read]
  | cons c cs =>
    have hne : d.char ≠ c := fun hc => h (by rw [hc]; rfl)
    simp [Expr.read, hne]

theorem isSome_read_delimRule :
    (d.delimRule.read cs).isSome ↔ cs.head? = some d.char := by
  by_cases hd : cs.head? = some d.char
  · obtain ⟨rest, rfl⟩ := List.head?_eq_some_iff.mp hd
    simp [read_delimRule_self]
  · simp [read_delimRule_of_ne d cs hd, hd]

theorem progresses_delimRule : d.delimRule.read.Progresses := by
  intro cs r hr
  obtain ⟨rest, rfl⟩ := List.head?_eq_some_iff.mp
    ((isSome_read_delimRule d cs).mp (Option.isSome_of_eq_some hr))
  rw [read_delimRule_self] at hr
  cases hr
  exact List.cons_ne_nil d.char []

theorem read_endRule_self : d.endRule.read (d.char :: cs) = some (.leaf [d.char] cs) := by
  rw [read_eq, body_endRule]
  simp [Expr.read, Expr.readFirst, read_delimRule_self]

/-- A line end ahead ends a span, and is left. -/
theorem read_endRule_of_lineEnd (h : (lineEnd? cs).isSome) :
    ∃ m, d.endRule.read cs = some ⟨m, [], cs⟩ := by
  have hdelim : d.delimRule.read cs = none := by
    apply read_delimRule_of_ne
    rcases head?_of_lineEnd? h with hhead | hhead | hhead <;> rw [hhead] <;> cases d <;> decide
  obtain ⟨e, he⟩ := Option.isSome_iff_exists.mp h
  rw [read_eq, body_endRule]
  exact ⟨_, by simp only [Expr.read, Expr.readFirst, hdelim, read_eol, he]; rfl⟩

theorem read_endRule_eq_none (hd : cs.head? ≠ some d.char) (h : lineEnd? cs = none) :
    d.endRule.read cs = none := by
  rw [read_eq, body_endRule]
  simp [Expr.read, Expr.readFirst, read_delimRule_of_ne d cs hd, read_eol, h]

theorem isSome_read_endRule :
    (d.endRule.read cs).isSome ↔ cs.head? = some d.char ∨ (lineEnd? cs).isSome := by
  by_cases hd : cs.head? = some d.char
  · obtain ⟨rest, rfl⟩ := List.head?_eq_some_iff.mp hd
    simp [read_endRule_self]
  · cases h : lineEnd? cs with
    | none => simp [read_endRule_eq_none d cs hd h, hd]
    | some e =>
      obtain ⟨m, hm⟩ := read_endRule_of_lineEnd d cs (by rw [h]; rfl)
      simp [hm]

/-- A span inside another stops at either delimiter and at a line end. -/
theorem isSome_read_nestedEnd : (nestedEnd.read cs).isSome ↔ Stops cs := by
  have hbody : body nestedEnd =
      .firstOf [.rule Delimiter.slash.endRule, .ahead (.rule Delimiter.star.endRule)] := rfl
  have hslash := isSome_read_endRule .slash cs
  have hstar := isSome_read_endRule .star cs
  rw [read_eq, hbody]
  simp only [Expr.read, Expr.readFirst]
  cases h : Delimiter.slash.endRule.read cs with
  | some r =>
    rw [h] at hslash
    simp only [Option.isSome_some, true_iff]
    exact (hslash.mp rfl).imp (fun hd => ⟨_, hd⟩) id
  | none =>
    rw [h] at hslash
    simp only [Option.isSome_none, Bool.false_eq_true, false_iff, not_or] at hslash
    have hexists : (∃ d : Delimiter, cs.head? = some d.char) ↔
        cs.head? = some Delimiter.star.char := by
      constructor
      · rintro ⟨d, hd⟩
        cases d with
        | star => exact hd
        | slash => exact absurd hd hslash.1
      · intro hd
        exact ⟨_, hd⟩
    rw [Stops, hexists, ← hstar]
    cases Delimiter.star.endRule.read cs <;> rfl

end Rule

end WikiMarkup
