import Mathlib.Data.List.TakeWhile
import WikiMarkup.Decimal.Literal
import WikiMarkup.Format.Json
import WikiMarkup.Proofs.Format.Escape

/-!
# Tokens of JSON

JSON as it is read, whoever wrote it. A text is cut into tokens, between which blanks do not count.
Brackets, braces, colons and commas stand for themselves; a string stands in quotation marks, with
escapes for whatever its writer chose; and every other run of characters is a word, which must be
one of the three names or a number.

Of strings, numbers and blanks, as the writer writes them, it is shown which tokens they are.
-/

namespace WikiMarkup.Json

/-- What a single word says. Numbers may be fractions. -/
inductive Scalar where
  | null
  | bool (b : Bool)
  | number (n : Decimal.Literal)
deriving DecidableEq, Repr

inductive Token where
  | beginArray
  | endArray
  | beginObject
  | endObject
  | colon
  | comma
  | string (s : String)
  | scalar (s : Scalar)
deriving DecidableEq, Repr

/-! ## Strings -/

/-- The code unit that four hexadecimal digits write. -/
def readUnit? : List Char → Option (Nat × List Char)
  | a :: b :: c :: d :: cs => (Decimal.natOfDigits? 16 [a, b, c, d]).map fun unit => (unit, cs)
  | _ => none

/-- Whether a code unit is the first half of a character. -/
def isHigh (unit : Nat) : Bool := 0xd800 ≤ unit && unit < 0xdc00

/-- Whether a code unit is the second half of a character. -/
def isLow (unit : Nat) : Bool := 0xdc00 ≤ unit && unit < 0xe000

/-- The character of two halves. -/
def ofHalves (high low : Nat) : Char :=
  Char.ofNat (0x10000 + (high - 0xd800) * 0x400 + (low - 0xdc00))

/-- The character whose first half is behind, with the escape of its second half ahead. -/
def readLow? (high : Nat) : List Char → Option (Char × List Char)
  | '\\' :: 'u' :: cs =>
    match readUnit? cs with
    | some (low, rest) => if isLow low then some (ofHalves high low, rest) else none
    | none => none
  | _ => none

/-- The character of an escape by code units, whose first `\u` is behind. -/
def readUnicode? (cs : List Char) : Option (Char × List Char) :=
  match readUnit? cs with
  | some (unit, rest) =>
    if isHigh unit then readLow? unit rest
    else if isLow unit then none
    else some (Char.ofNat unit, rest)
  | none => none

/-- The character of an escape of two characters. -/
def shortEscape? : Char → Option Char
  | '"' => some '"'
  | '\\' => some '\\'
  | '/' => some '/'
  | 'b' => some '\x08'
  | 'f' => some '\x0c'
  | 'n' => some '\n'
  | 'r' => some '\r'
  | 't' => some '\t'
  | _ => none

/-- The character of an escape whose backslash is behind. -/
def readEscape? : List Char → Option (Char × List Char)
  | [] => none
  | c :: cs => if c = 'u' then readUnicode? cs else (shortEscape? c).map fun c => (c, cs)

theorem length_lt_of_readUnit? {cs rest : List Char} {unit : Nat}
    (h : readUnit? cs = some (unit, rest)) : rest.length < cs.length := by
  unfold readUnit? at h
  split at h
  · obtain ⟨_, _, hpair⟩ := Option.map_eq_some_iff.mp h
    cases hpair
    simp only [List.length_cons]
    omega
  · cases h

theorem length_lt_of_readLow? {c : Char} {cs rest : List Char} {high : Nat}
    (h : readLow? high cs = some (c, rest)) : rest.length < cs.length := by
  unfold readLow? at h
  split at h
  · split at h
    · next hunit =>
      split at h
      · rw [Option.some.injEq, Prod.mk.injEq] at h
        have := length_lt_of_readUnit? hunit
        simp only [← h.2, List.length_cons]
        omega
      · cases h
    · cases h
  · cases h

theorem length_lt_of_readUnicode? {c : Char} {cs rest : List Char}
    (h : readUnicode? cs = some (c, rest)) : rest.length < cs.length := by
  unfold readUnicode? at h
  split at h
  · next hunit =>
    have hfirst := length_lt_of_readUnit? hunit
    split at h
    · exact Nat.lt_trans (length_lt_of_readLow? h) hfirst
    · split at h
      · cases h
      · cases h
        exact hfirst
  · cases h

theorem length_lt_of_readEscape? {c : Char} {cs rest : List Char}
    (h : readEscape? cs = some (c, rest)) : rest.length < cs.length := by
  unfold readEscape? at h
  split at h
  · cases h
  · split at h
    · exact Nat.lt_succ_of_lt (length_lt_of_readUnicode? h)
    · obtain ⟨_, _, hpair⟩ := Option.map_eq_some_iff.mp h
      cases hpair
      exact Nat.lt_succ_self _

/-- The characters of a string whose opening quotation mark is behind, and what comes after it. -/
def readString? (cs : List Char) : Option (List Char × List Char) :=
  match cs with
  | [] => none
  | c :: cs =>
    if c = '"' then some ([], cs)
    else if c = '\\' then
      match h : readEscape? cs with
      | some (c, rest) =>
        have := length_lt_of_readEscape? h
        (readString? rest).map fun s => (c :: s.1, s.2)
      | none => none
    else if c.toNat < 0x20 then none
    else (readString? cs).map fun s => (c :: s.1, s.2)
termination_by cs.length

theorem length_lt_of_readString? {cs s rest : List Char} (h : readString? cs = some (s, rest)) :
    rest.length < cs.length := by
  fun_induction readString? cs generalizing s rest with
  | case1 => cases h
  | case2 =>
    cases h
    exact Nat.lt_succ_self _
  | case3 cs c behind _ hlt _ ih =>
    obtain ⟨_, hinner, hpair⟩ := Option.map_eq_some_iff.mp h
    cases hpair
    exact Nat.lt_succ_of_lt (Nat.lt_trans (ih hinner) hlt)
  | case4 => cases h
  | case5 => cases h
  | case6 c cs _ _ _ ih =>
    obtain ⟨_, hinner, hpair⟩ := Option.map_eq_some_iff.mp h
    cases hpair
    exact Nat.lt_succ_of_lt (ih hinner)

/-! ## Words -/

/-- Digits without a zero before them. -/
def isWhole (cs : List Char) : Bool := cs.length == 1 || cs.head?.any (· != '0')

/-- An exponent, or nothing at all. -/
def isExponent : List Char → Bool
  | [] => true
  | c :: cs =>
    let digits := if cs.head?.any (fun c => c == '+' || c == '-') then cs.tail else cs
    (c == 'e' || c == 'E') && !digits.isEmpty && digits.all Decimal.isDigit

/-- A point with digits behind it, or nothing, and then an exponent or nothing. -/
def isFraction : List Char → Bool
  | '.' :: cs =>
    !(cs.takeWhile Decimal.isDigit).isEmpty && isExponent (cs.dropWhile Decimal.isDigit)
  | cs => isExponent cs

/-- Whether a word is a number behind its sign. -/
def isMagnitude (cs : List Char) : Bool :=
  isWhole (cs.takeWhile Decimal.isDigit) && isFraction (cs.dropWhile Decimal.isDigit)

/-- Whether a word is a number. -/
def isNumber : List Char → Bool
  | '-' :: cs => isMagnitude cs
  | cs => isMagnitude cs

def scalarOf? (word : List Char) : Option Scalar :=
  if word = "null".toList then some .null
  else if word = "true".toList then some (.bool true)
  else if word = "false".toList then some (.bool false)
  else if isNumber word then (Decimal.Literal.ofChars? word).map .number
  else none

/-! ## Tokens -/

def isBlank (c : Char) : Bool := c == ' ' || c == '\t' || c == '\n' || c == '\r'

/-- The token that a single character is. -/
def markOf? : Char → Option Token
  | '[' => some .beginArray
  | ']' => some .endArray
  | '\x7b' => some .beginObject
  | '\x7d' => some .endObject
  | ':' => some .colon
  | ',' => some .comma
  | _ => none

def inWord (c : Char) : Bool := !isBlank c && (markOf? c).isNone && c != '"'

/-- Cut a text into tokens. -/
def tokens? (cs : List Char) : Option (List Token) :=
  match cs with
  | [] => some []
  | c :: cs =>
    if isBlank c then tokens? cs
    else
      match markOf? c with
      | some mark => (tokens? cs).map (mark :: ·)
      | none =>
        if c = '"' then
          match h : readString? cs with
          | some (s, rest) =>
            have := length_lt_of_readString? h
            (tokens? rest).map (.string (String.ofList s) :: ·)
          | none => none
        else
          match scalarOf? (c :: cs.takeWhile inWord) with
          | some s =>
            have := (List.dropWhile_sublist (p := inWord) (l := cs)).length_le
            (tokens? (cs.dropWhile inWord)).map (.scalar s :: ·)
          | none => none
termination_by cs.length

/-! ## Blanks -/

theorem tokens?_blank {c : Char} (h : isBlank c = true) (cs : List Char) :
    tokens? (c :: cs) = tokens? cs := by
  rw [tokens?, if_pos h]

theorem tokens?_blanks {blanks : List Char} (h : ∀ c ∈ blanks, isBlank c = true) (cs : List Char) :
    tokens? (blanks ++ cs) = tokens? cs := by
  induction blanks with
  | nil => rfl
  | cons c blanks ih =>
    obtain ⟨hc, hblanks⟩ := List.forall_mem_cons.mp h
    rw [List.cons_append, tokens?_blank hc, ih hblanks]

theorem tokens?_newLine (level : Nat) (cs : List Char) :
    tokens? ((newLine level).toList ++ cs) = tokens? cs := by
  apply tokens?_blanks
  intro c hc
  rw [newLine, Format.toList_pushn, List.mem_append] at hc
  rcases hc with hc | hc
  · rw [List.mem_singleton.mp hc]
    rfl
  · rw [List.eq_of_mem_replicate hc]
    rfl

theorem tokens?_mark {c : Char} {mark : Token} (h : markOf? c = some mark) (cs : List Char) :
    tokens? (c :: cs) = (tokens? cs).map (mark :: ·) := by
  have hblank : isBlank c = false := by
    unfold markOf? at h
    split at h <;> first | rfl | cases h
  rw [tokens?, if_neg (Bool.eq_false_iff.mp hblank), h]

/-! ## Strings that were written -/

theorem readString?_plain {c : Char} (hquote : c ≠ '"') (hslash : c ≠ '\\') (hle : 0x20 ≤ c.toNat)
    (cs : List Char) : readString? (c :: cs) = (readString? cs).map fun s => (c :: s.1, s.2) := by
  rw [readString?, if_neg hquote, if_neg hslash, if_neg (Nat.not_lt.mpr hle)]

theorem readString?_escaped {c : Char} {cs rest : List Char} (h : readEscape? cs = some (c, rest)) :
    readString? ('\\' :: cs) = (readString? rest).map fun s => (c :: s.1, s.2) := by
  rw [readString?, if_neg (by decide), if_pos rfl]
  split
  · next hread =>
    rw [h] at hread
    cases hread
    rfl
  · next hread =>
    rw [h] at hread
    cases hread

theorem readUnicode?_control {n : Nat} (h : n < 0x20) (cs : List Char) :
    readUnicode? ('0' :: '0' :: hexDigit (n / 16) :: hexDigit (n % 16) :: cs) =
      some (Char.ofNat n, cs) := by
  have hunit : ∀ n < 0x20, Decimal.natOfDigits? 16
      ['0', '0', hexDigit (n / 16), hexDigit (n % 16)] = some n := by decide
  have hhalf : isHigh n = false ∧ isLow n = false := by
    simp only [isHigh, isLow, Bool.and_eq_false_imp, decide_eq_true_eq, decide_eq_false_iff_not]
    omega
  rw [readUnicode?, readUnit?, hunit n h]
  simp [hhalf]

/-- What is written for a character in a string is read as the character. -/
theorem readString?_escapeChar (c : Char) (cs : List Char) :
    readString? ((escapeChar c).toList ++ cs) =
      (readString? cs).map fun s => (c :: s.1, s.2) := by
  unfold escapeChar
  split
  · exact readString?_escaped rfl
  · exact readString?_escaped rfl
  · exact readString?_escaped rfl
  · exact readString?_escaped rfl
  · exact readString?_escaped rfl
  · exact readString?_escaped rfl
  · exact readString?_escaped rfl
  · next hquote hslash _ _ _ _ _ =>
    split
    · next hlt =>
      rw [String.toList_ofList]
      apply readString?_escaped
      have hread := readUnicode?_control hlt cs
      rw [Char.ofNat_toNat] at hread
      exact hread
    · next hge =>
      rw [Char.toString_eq_singleton, String.toList_singleton]
      exact readString?_plain hquote hslash (Nat.not_lt.mp hge) cs

theorem readString?_escapeChars (s cs : List Char) :
    readString? (s.flatMap (fun c => (escapeChar c).toList) ++ '"' :: cs) = some (s, cs) := by
  induction s with
  | nil => rw [List.flatMap_nil, List.nil_append, readString?, if_pos rfl]
  | cons c s ih =>
    rw [List.flatMap_cons, List.append_assoc, readString?_escapeChar, ih, Option.map_some]

theorem tokens?_quote {s cs rest : List Char} (h : readString? cs = some (s, rest)) :
    tokens? ('"' :: cs) = (tokens? rest).map (.string (String.ofList s) :: ·) := by
  have hmark : markOf? '"' = none := rfl
  rw [tokens?, if_neg (by decide), hmark]
  simp only [if_true]
  split
  · next hread =>
    rw [h] at hread
    cases hread
    rfl
  · next hread =>
    rw [h] at hread
    cases hread

/-- A string is read as it was before it was written. -/
theorem tokens?_escape (s : String) (cs : List Char) :
    tokens? ((escape s).toList ++ cs) = (tokens? cs).map (.string s :: ·) := by
  have htext : (escape s).toList ++ cs =
      '"' :: (s.toList.flatMap (fun c => (escapeChar c).toList) ++ '"' :: cs) := by
    rw [escape, String.toList_append, Format.toList_foldl_append]
    simp
  rw [htext, tokens?_quote (readString?_escapeChars s.toList cs), String.ofList_toList]

/-! ## Words that were written -/

/-- Nothing ahead would make a word longer. -/
def EndsWord (cs : List Char) : Prop := ∀ c ∈ cs.head?, inWord c = false

theorem takeWhile_inWord {word cs : List Char} (hword : word.all inWord) (hend : EndsWord cs) :
    (word ++ cs).takeWhile inWord = word ∧ (word ++ cs).dropWhile inWord = cs := by
  rw [List.takeWhile_append_of_pos (List.all_eq_true.mp hword),
    List.dropWhile_append_of_pos (List.all_eq_true.mp hword)]
  cases cs with
  | nil => simp
  | cons c cs => simp [hend c rfl]

/-- A word is read whole. -/
theorem tokens?_word {c : Char} {word cs : List Char} {s : Scalar} (hword : (c :: word).all inWord)
    (hs : scalarOf? (c :: word) = some s) (hend : EndsWord cs) :
    tokens? (c :: word ++ cs) = (tokens? cs).map (.scalar s :: ·) := by
  rw [List.all_cons, Bool.and_eq_true] at hword
  obtain ⟨hc, hrest⟩ := hword
  obtain ⟨htake, hdrop⟩ := takeWhile_inWord hrest hend
  simp only [inWord, Bool.and_eq_true, Bool.not_eq_true', bne_iff_ne, ne_eq,
    Option.isNone_iff_eq_none] at hc
  obtain ⟨⟨hblank, hmark⟩, hquote⟩ := hc
  rw [List.cons_append, tokens?, if_neg (Bool.eq_false_iff.mp hblank), hmark]
  simp only [if_neg hquote, htake, hdrop, hs]

theorem isDigit_of_mem_toDigits {n : Nat} {c : Char} (h : c ∈ Nat.toDigits 10 n) :
    Decimal.isDigit c = true := by
  have hdigit := Nat.isDigit_of_mem_toDigits (by decide) (by decide) h
  simpa [Decimal.isDigit, Char.isDigit, Char.le_def] using hdigit

/-- The digits of a number other than zero begin with no zero. -/
theorem eq_zero_of_head?_toDigits {n : Nat} (h : (Nat.toDigits 10 n).head? = some '0') : n = 0 := by
  induction n using Nat.strongRecOn with
  | ind n ih =>
    rw [Nat.toDigits_eq_if (by decide)] at h
    split at h
    · exact Nat.digitChar_eq_zero.mp (Option.some.inj h)
    · next hge =>
      have hhigh : (Nat.toDigits 10 (n / 10)).head? = some '0' := by
        obtain ⟨c, cs, hdigits⟩ := List.exists_cons_of_ne_nil
          (Nat.toDigits_ne_nil (n := n / 10) (b := 10))
        rw [hdigits] at h ⊢
        exact h
      have hzero := ih (n / 10) (by omega) hhigh
      omega

theorem isWhole_toDigits (n : Nat) : isWhole (Nat.toDigits 10 n) = true := by
  obtain ⟨c, cs, hdigits⟩ := List.exists_cons_of_ne_nil (Nat.toDigits_ne_nil (n := n) (b := 10))
  by_cases hzero : n = 0
  · rw [hzero]
    rfl
  · have hc : c ≠ '0' := by
      rintro rfl
      exact hzero (eq_zero_of_head?_toDigits (by rw [hdigits]; rfl))
    simp [isWhole, hdigits, hc]

theorem isMagnitude_toDigits (n : Nat) : isMagnitude (Nat.toDigits 10 n) = true := by
  have hdigits : ∀ c ∈ Nat.toDigits 10 n, Decimal.isDigit c = true := fun c =>
    isDigit_of_mem_toDigits
  rw [isMagnitude, List.takeWhile_eq_self_iff.mpr hdigits, List.dropWhile_eq_nil_iff.mpr hdigits,
    isWhole_toDigits]
  rfl

theorem readDigits_of_all {cs : List Char} (h : ∀ c ∈ cs, Decimal.isDigit c = true)
    (high count : Nat) : Decimal.Literal.readDigits high count cs =
      (Nat.ofDigitChars 10 cs high, count + cs.length, []) := by
  induction cs generalizing high count with
  | nil => rfl
  | cons c cs ih =>
    obtain ⟨hc, hcs⟩ := List.forall_mem_cons.mp h
    rw [Decimal.Literal.readDigits, if_pos hc, ih hcs, Nat.ofDigitChars_cons, Nat.mul_comm high,
      List.length_cons, Nat.add_right_comm, Nat.add_assoc]

/-- A number that is written with its sign. -/
def numeral (negative : Bool) (n : Nat) : List Char :=
  if negative then '-' :: Nat.toDigits 10 n else Nat.toDigits 10 n

/-- What is no digit is at most the sign. -/
theorem isDigit_or_of_mem_numeral {negative : Bool} {n : Nat} {c : Char}
    (h : c ∈ numeral negative n) : Decimal.isDigit c = true ∨ c = '-' := by
  cases negative with
  | true => exact (List.mem_cons.mp h).symm.imp_left isDigit_of_mem_toDigits
  | false => exact .inl (isDigit_of_mem_toDigits h)

theorem isNumber_numeral (negative : Bool) (n : Nat) : isNumber (numeral negative n) = true := by
  cases negative with
  | true => exact isMagnitude_toDigits n
  | false =>
    change isNumber (Nat.toDigits 10 n) = true
    unfold isNumber
    split
    · next cs hcs => exact absurd (isDigit_of_mem_toDigits (hcs ▸ List.mem_cons_self)) (by decide)
    · exact isMagnitude_toDigits n

theorem splitSign_numeral (negative : Bool) (n : Nat) :
    Decimal.splitSign (numeral negative n) = (negative, Nat.toDigits 10 n) := by
  cases negative with
  | true => rfl
  | false =>
    change Decimal.splitSign (Nat.toDigits 10 n) = _
    unfold Decimal.splitSign
    split
    · next cs hcs => exact absurd (isDigit_of_mem_toDigits (hcs ▸ List.mem_cons_self)) (by decide)
    · next cs hcs => exact absurd (isDigit_of_mem_toDigits (hcs ▸ List.mem_cons_self)) (by decide)
    · rfl

theorem ofChars?_numeral (negative : Bool) (n : Nat) :
    Decimal.Literal.ofChars? (numeral negative n) = some ⟨negative, n, 0⟩ := by
  have hdigits := readDigits_of_all (fun c => isDigit_of_mem_toDigits (n := n)) 0 0
  rw [Nat.ofDigitChars_ten_toDigits] at hdigits
  have hlength : (Nat.toDigits 10 n).length ≠ 0 :=
    mt List.length_eq_zero_iff.mp Nat.toDigits_ne_nil
  simp [Decimal.Literal.ofChars?, splitSign_numeral, hdigits, hlength,
    Decimal.Literal.readExponent?]

theorem scalarOf?_numeral (negative : Bool) (n : Nat) :
    scalarOf? (numeral negative n) = some (.number ⟨negative, n, 0⟩) := by
  -- a name holds an `l` or an `r`, which no numeral does
  have hl : 'l' ∉ numeral negative n := fun h =>
    absurd (isDigit_or_of_mem_numeral h) (by decide)
  have hr : 'r' ∉ numeral negative n := fun h =>
    absurd (isDigit_or_of_mem_numeral h) (by decide)
  have hnull : numeral negative n ≠ "null".toList := fun h => hl (h ▸ by decide)
  have htrue : numeral negative n ≠ "true".toList := fun h => hr (h ▸ by decide)
  have hfalse : numeral negative n ≠ "false".toList := fun h => hl (h ▸ by decide)
  rw [scalarOf?, if_neg hnull, if_neg htrue, if_neg hfalse, if_pos (isNumber_numeral negative n),
    ofChars?_numeral]
  rfl

theorem toList_toString (n : Int) : (toString n).toList = numeral (n < 0) n.natAbs := by
  rw [Int.toString_eq_repr, Int.repr_eq_if]
  split
  · next hle =>
    have hnat : n.toNat = n.natAbs := by omega
    rw [numeral, if_neg (by simpa using hle), Nat.repr_eq_ofList_toDigits, hnat]
    simp
  · next hlt =>
    have hnat : (-n).toNat = n.natAbs := by omega
    rw [numeral, if_pos (by simpa using hlt), Nat.repr_eq_ofList_toDigits, hnat]
    simp

theorem inWord_of_isDigit {c : Char} (h : Decimal.isDigit c = true) : inWord c = true := by
  have hne : ∀ d, Decimal.isDigit d = false → c ≠ d := by
    rintro d hd rfl
    exact Bool.false_ne_true (hd.symm.trans h)
  have hmark : markOf? c = none := by
    unfold markOf?
    split <;> first | rfl | exact absurd h (by decide)
  have hblank : isBlank c = false := by
    simp [isBlank, hne ' ' (by decide), hne '\t' (by decide), hne '\n' (by decide),
      hne '\r' (by decide)]
  simp [inWord, hmark, hblank, hne '"' (by decide)]

theorem all_inWord_numeral (negative : Bool) (n : Nat) : (numeral negative n).all inWord := by
  rw [List.all_eq_true]
  intro c hc
  rcases isDigit_or_of_mem_numeral hc with hdigit | rfl
  · exact inWord_of_isDigit hdigit
  · decide

theorem numeral_ne_nil (negative : Bool) (n : Nat) : numeral negative n ≠ [] := by
  cases negative with
  | true => exact List.cons_ne_nil _ _
  | false => exact Nat.toDigits_ne_nil

/-- An integer is read as it was before it was written. -/
theorem tokens?_toString (n : Int) {cs : List Char} (hend : EndsWord cs) :
    tokens? ((toString n).toList ++ cs) =
      (tokens? cs).map (.scalar (.number ⟨n < 0, n.natAbs, 0⟩) :: ·) := by
  obtain ⟨c, word, hnumeral⟩ := List.exists_cons_of_ne_nil (numeral_ne_nil (n < 0) n.natAbs)
  rw [toList_toString, hnumeral]
  apply tokens?_word _ _ hend
  · rw [← hnumeral]
    exact all_inWord_numeral _ _
  · rw [← hnumeral]
    exact scalarOf?_numeral _ _

end WikiMarkup.Json
