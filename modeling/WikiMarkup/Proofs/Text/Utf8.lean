import Mathlib.Tactic.Ring
import Mathlib.Tactic.SplitIfs
import WikiMarkup.Text.Decode

/-!
# Texts and their bytes

A character is written as one byte, or as a lead byte and up to three more that have six bits of the
code point each. The strict reading of bytes undoes this: it takes the bytes of every text, and no
others. The order of texts by their characters is the order of their bytes, since of two characters
the smaller one has the smaller byte where their bytes first differ.
-/

namespace WikiMarkup.Text

variable {bits more n : Nat} {low high b : UInt8} {bs rest : List UInt8} {c d : Char}
variable {cs : List Char} {s t : String} {l : Lead}

/-- The bytes of a text. -/
def bytesOf (s : String) : List UInt8 := s.toUTF8.data.toList

theorem bytesOf_ofList (cs : List Char) :
    bytesOf (.ofList cs) = cs.flatMap String.utf8EncodeChar := by
  show (String.ofList cs).toByteArray.data.toList = _
  rw [String.toByteArray_ofList, List.utf8Encode, List.toList_data_toByteArray]

theorem bytesOf_eq (s : String) : bytesOf s = s.toList.flatMap String.utf8EncodeChar := by
  rw [← bytesOf_ofList, String.ofList_toList]

/-- The lowest bits of a number, six in each byte. -/
def followers : Nat → Nat → List UInt8
  | 0, _ => []
  | more + 1, n => UInt8.ofNat (n / 64 ^ more % 64 + 0x80) :: followers more n

theorem toNat_ofNat_of_lt (h : n < 256) : (UInt8.ofNat n).toNat = n :=
  UInt8.toNat_ofNat_of_lt' h

theorem mod_pow_succ (n more : Nat) :
    n % 64 ^ (more + 1) = n / 64 ^ more % 64 * 64 ^ more + n % 64 ^ more := by
  rw [Nat.pow_succ, Nat.mod_mul]
  ring

/-- The first of the bytes is within the bounds, if there is one. -/
def FirstWithin (low high : UInt8) (more n : Nat) : Prop :=
  0 < more → low.toNat ≤ n / 64 ^ (more - 1) % 64 + 0x80 ∧
    n / 64 ^ (more - 1) % 64 + 0x80 ≤ high.toNat

theorem firstWithin_all (more n : Nat) : FirstWithin 0x80 0xbf more n := by
  intro _
  have : n / 64 ^ (more - 1) % 64 < 64 := Nat.mod_lt _ (by decide)
  have hlow : (0x80 : UInt8).toNat = 0x80 := rfl
  have hhigh : (0xbf : UInt8).toNat = 0xbf := rfl
  omega

theorem readRest_followers (hfirst : FirstWithin low high more n) :
    readRest bits low high more (followers more n ++ rest) =
      (some (Char.ofNat (bits * 64 ^ more + n % 64 ^ more)), rest) := by
  induction more generalizing bits low high with
  | zero => simp [readRest, followers, Nat.mod_one]
  | succ more ih =>
    obtain ⟨hlow, hhigh⟩ := hfirst (Nat.succ_pos more)
    rw [Nat.add_sub_cancel] at hlow hhigh
    have hdigit : n / 64 ^ more % 64 < 64 := Nat.mod_lt _ (by decide)
    have hbyte : (UInt8.ofNat (n / 64 ^ more % 64 + 0x80)).toNat = n / 64 ^ more % 64 + 0x80 :=
      toNat_ofNat_of_lt (by omega)
    rw [followers, List.cons_append, readRest, if_pos, ih (firstWithin_all more n), hbyte,
      Nat.add_sub_cancel, mod_pow_succ]
    · congr 3
      ring
    · rw [UInt8.le_iff_toNat_le, UInt8.le_iff_toNat_le, hbyte]
      exact ⟨hlow, hhigh⟩

theorem utf8EncodeChar_eq (c : Char) : String.utf8EncodeChar c =
    if c.toNat ≤ 0x7f then [UInt8.ofNat c.toNat]
    else if c.toNat ≤ 0x7ff then UInt8.ofNat (c.toNat / 64 % 32 + 0xc0) :: followers 1 c.toNat
    else if c.toNat ≤ 0xffff then UInt8.ofNat (c.toNat / 4096 % 16 + 0xe0) :: followers 2 c.toNat
    else UInt8.ofNat (c.toNat / 262144 % 8 + 0xf0) :: followers 3 c.toNat := by
  simp only [String.utf8EncodeChar, followers, Char.toNat_val, Nat.pow_zero, Nat.div_one,
    Nat.pow_one, Nat.reducePow]

/-- The code points that are characters. -/
theorem toNat_bounds (c : Char) : c.toNat < 0xd800 ∨ 0xdfff < c.toNat ∧ c.toNat < 0x110000 :=
  c.valid

/-- What a lead byte says: one for each number of bytes that follow. Of the bytes behind the first
and the last lead byte of their kind some would be too short a form, a surrogate or no code
point. -/
theorem lead?_eq_some_iff : lead? b = some l ↔
    (∃ n < 0x80, b = UInt8.ofNat n ∧ l = ⟨0, 0x80, 0xbf, n⟩) ∨
    (∃ n < 32, 2 ≤ n ∧ b = UInt8.ofNat (n + 0xc0) ∧ l = ⟨1, 0x80, 0xbf, n⟩) ∨
    (∃ n < 16, b = UInt8.ofNat (n + 0xe0) ∧
      l = ⟨2, if n = 0 then 0xa0 else 0x80, if n = 13 then 0x9f else 0xbf, n⟩) ∨
    ∃ n < 5, b = UInt8.ofNat (n + 0xf0) ∧
      l = ⟨3, if n = 0 then 0x90 else 0x80, if n = 4 then 0x8f else 0xbf, n⟩ := by
  constructor
  · intro h
    have hb (m : Nat) (hm : m ≤ b.toNat) : b = UInt8.ofNat (b.toNat - m + m) := by
      rw [Nat.sub_add_cancel hm, UInt8.ofNat_toNat]
    simp only [lead?] at h
    split_ifs at h with h80 hc2 he0 h3 hed hf0 h4 hf4 h5
    · exact .inl ⟨b.toNat, h80, UInt8.ofNat_toNat.symm, (Option.some.inj h).symm⟩
    · exact .inr (.inl ⟨b.toNat - 0xc0, by omega, by omega, hb _ (by omega),
        (Option.some.inj h).symm⟩)
    · have hn : b.toNat - 0xe0 = 0 := by omega
      refine .inr (.inr (.inl ⟨_, by omega, hb 0xe0 (by omega), ?_⟩))
      rw [hn, ← Option.some.inj h]
      rfl
    · have hn : b.toNat - 0xe0 = 13 := by omega
      refine .inr (.inr (.inl ⟨_, by omega, hb 0xe0 (by omega), ?_⟩))
      rw [hn, ← Option.some.inj h]
      rfl
    · refine .inr (.inr (.inl ⟨_, by omega, hb 0xe0 (by omega), ?_⟩))
      rw [← Option.some.inj h, if_neg (by omega), if_neg (by omega)]
    · have hn : b.toNat - 0xf0 = 0 := by omega
      refine .inr (.inr (.inr ⟨_, by omega, hb 0xf0 (by omega), ?_⟩))
      rw [hn, ← Option.some.inj h]
      rfl
    · refine .inr (.inr (.inr ⟨_, by omega, hb 0xf0 (by omega), ?_⟩))
      rw [← Option.some.inj h, if_neg (by omega), if_neg (by omega)]
    · have hn : b.toNat - 0xf0 = 4 := by omega
      refine .inr (.inr (.inr ⟨_, by omega, hb 0xf0 (by omega), ?_⟩))
      rw [hn, ← Option.some.inj h]
      rfl
  · rintro (⟨n, hn, rfl, rfl⟩ | ⟨n, hn, hle, rfl, rfl⟩ | ⟨n, hn, rfl, rfl⟩ | ⟨n, hn, rfl, rfl⟩)
    · revert n
      decide
    · revert n
      decide
    · revert n
      decide
    · revert n
      decide

/-- Every character is written as a lead byte and the bytes of its lower bits. -/
theorem exists_lead (c : Char) : ∃ b l, lead? b = some l ∧
    String.utf8EncodeChar c = b :: followers l.more c.toNat ∧
    l.bits * 64 ^ l.more + c.toNat % 64 ^ l.more = c.toNat ∧
    FirstWithin l.low l.high l.more c.toNat := by
  have hbounds := toNat_bounds c
  rw [utf8EncodeChar_eq]
  generalize c.toNat = n at hbounds
  split_ifs with hone htwo hthree
  · refine ⟨_, _, lead?_eq_some_iff.mpr (.inl ⟨n, by omega, rfl, rfl⟩), rfl, ?_,
      fun h => absurd h (Nat.lt_irrefl 0)⟩
    simp [Nat.mod_one]
  · refine ⟨_, _, lead?_eq_some_iff.mpr (.inr (.inl ⟨n / 64 % 32, by omega, by omega, rfl, rfl⟩)),
      rfl, ?_, firstWithin_all 1 n⟩
    simp only [Nat.pow_one]
    omega
  · refine ⟨_, _, lead?_eq_some_iff.mpr (.inr (.inr (.inl ⟨n / 4096 % 16, by omega, rfl, rfl⟩))),
      rfl, ?_, ?_⟩
    · simp only [Nat.reducePow]
      omega
    · intro _
      simp only [Nat.add_one_sub_one, Nat.pow_one]
      constructor <;> split <;> simp only [UInt8.reduceToNat] <;> omega
  · refine ⟨_, _, lead?_eq_some_iff.mpr (.inr (.inr (.inr ⟨n / 262144 % 8, by omega, rfl, rfl⟩))),
      rfl, ?_, ?_⟩
    · simp only [Nat.reducePow]
      omega
    · intro _
      simp only [Nat.add_one_sub_one, Nat.reducePow]
      constructor <;> split <;> simp only [UInt8.reduceToNat] <;> omega

theorem exists_readCharacter (c : Char) (rest : List UInt8) : ∃ b bs,
    String.utf8EncodeChar c ++ rest = b :: bs ∧ readCharacter b bs = (some c, rest) := by
  obtain ⟨b, l, hl, hbytes, hbits, hfirst⟩ := exists_lead c
  refine ⟨b, followers l.more c.toNat ++ rest, by rw [hbytes, List.cons_append], ?_⟩
  rw [readCharacter, hl]
  show readRest l.bits l.low l.high l.more _ = _
  rw [readRest_followers hfirst, hbits, Char.ofNat_toNat]

/-- Of two bytes in the same place the smaller one decides. -/
theorem cons_lt_cons_of_lt {x y : Nat} (hxy : x < y) (hy : y < 256) (xs ys : List UInt8) :
    UInt8.ofNat x :: xs < UInt8.ofNat y :: ys := by
  refine List.cons_lt_cons_iff.mpr (.inl (UInt8.lt_iff_toNat_lt.mpr ?_))
  rw [toNat_ofNat_of_lt (Nat.lt_trans hxy hy), toNat_ofNat_of_lt hy]
  exact hxy

theorem followers_append_lt {m : Nat} (h : n % 64 ^ more < m % 64 ^ more) (xs ys : List UInt8) :
    followers more n ++ xs < followers more m ++ ys := by
  induction more with
  | zero => simp [Nat.mod_one] at h
  | succ more ih =>
    rw [mod_pow_succ, mod_pow_succ] at h
    have hm : m / 64 ^ more % 64 < 64 := Nat.mod_lt _ (by decide)
    have hlow : m % 64 ^ more < 64 ^ more := Nat.mod_lt _ (Nat.pow_pos (by decide))
    rw [followers, followers, List.cons_append, List.cons_append]
    rcases Nat.lt_trichotomy (n / 64 ^ more % 64) (m / 64 ^ more % 64) with hlt | heq | hgt
    · exact cons_lt_cons_of_lt (by omega) (by omega) ..
    · rw [heq, List.cons_lt_cons_self]
      exact ih (by rw [heq] at h; exact Nat.lt_of_add_lt_add_left h)
    · have hle : (m / 64 ^ more % 64 + 1) * 64 ^ more ≤ n / 64 ^ more % 64 * 64 ^ more :=
        Nat.mul_le_mul_right _ hgt
      rw [Nat.add_one_mul] at hle
      omega

/-- A lead byte and its followers: the lead byte decides, and then the bits of the followers. -/
theorem lead_append_lt {x y m : Nat} (h : x < y ∨ x = y ∧ n % 64 ^ more < m % 64 ^ more)
    (hy : y < 256) (xs ys : List UInt8) :
    UInt8.ofNat x :: (followers more n ++ xs) < UInt8.ofNat y :: (followers more m ++ ys) := by
  rcases h with hlt | ⟨rfl, h⟩
  · exact cons_lt_cons_of_lt hlt hy ..
  · rw [List.cons_lt_cons_self]
    exact followers_append_lt h xs ys

theorem utf8EncodeChar_append_lt (h : c < d) (xs ys : List UInt8) :
    String.utf8EncodeChar c ++ xs < String.utf8EncodeChar d ++ ys := by
  have hlt : c.toNat < d.toNat := h
  have hd := toNat_bounds d
  rw [utf8EncodeChar_eq, utf8EncodeChar_eq]
  generalize c.toNat = n at hlt
  generalize d.toNat = m at hlt hd
  split_ifs
  all_goals try omega
  · exact cons_lt_cons_of_lt hlt (by omega) ..
  · exact cons_lt_cons_of_lt (by omega) (by omega) ..
  · exact cons_lt_cons_of_lt (by omega) (by omega) ..
  · exact cons_lt_cons_of_lt (by omega) (by omega) ..
  · exact lead_append_lt (by simp only [Nat.pow_one]; omega) (by omega) ..
  · exact cons_lt_cons_of_lt (by omega) (by omega) ..
  · exact cons_lt_cons_of_lt (by omega) (by omega) ..
  · exact lead_append_lt (by simp only [Nat.reducePow]; omega) (by omega) ..
  · exact cons_lt_cons_of_lt (by omega) (by omega) ..
  · exact lead_append_lt (by simp only [Nat.reducePow]; omega) (by omega) ..

theorem flatMap_utf8EncodeChar_lt {ds : List Char} (h : cs < ds) :
    cs.flatMap String.utf8EncodeChar < ds.flatMap String.utf8EncodeChar := by
  induction cs generalizing ds with
  | nil =>
    match ds with
    | d :: ds =>
      obtain ⟨b, bs, hbytes, -⟩ := exists_readCharacter d (ds.flatMap String.utf8EncodeChar)
      rw [List.flatMap_cons, hbytes]
      exact List.nil_lt_cons b bs
  | cons c cs ih =>
    match ds with
    | [] => exact absurd h (List.not_lt_nil _)
    | d :: ds =>
      rw [List.flatMap_cons, List.flatMap_cons]
      rcases List.cons_lt_cons_iff.mp h with hlt | ⟨rfl, hlt⟩
      · exact utf8EncodeChar_append_lt hlt ..
      · exact List.append_left_lt (ih hlt)

/-- Texts are in the order of their bytes. -/
theorem bytesOf_lt (h : s < t) : bytesOf s < bytesOf t := by
  rw [bytesOf_eq, bytesOf_eq]
  exact flatMap_utf8EncodeChar_lt h

end WikiMarkup.Text
