/-!
# Text from bytes

Bytes are read as UTF-8. A character has the shortest form only, and no surrogate or code point
above the last one has any. Where bytes are no character, the longest run of them that starts one
counts as one error, and reading goes on behind it. The strict reading refuses text with an error in
it; the lossy one puts a replacement character in the place of each.
-/

namespace WikiMarkup.Text

/-- What the first byte of a character says: how many bytes follow, the bounds of the next one, and
the bits that it gives to the code point. -/
structure Lead where
  more : Nat
  low : UInt8
  high : UInt8
  bits : Nat
deriving DecidableEq, Repr

def lead? (b : UInt8) : Option Lead :=
  let n := b.toNat
  if n < 0x80 then some ⟨0, 0x80, 0xbf, n⟩
  else if n < 0xc2 then none
  else if n < 0xe0 then some ⟨1, 0x80, 0xbf, n - 0xc0⟩
  else if n = 0xe0 then some ⟨2, 0xa0, 0xbf, 0⟩
  else if n = 0xed then some ⟨2, 0x80, 0x9f, 0xd⟩
  else if n < 0xf0 then some ⟨2, 0x80, 0xbf, n - 0xe0⟩
  else if n = 0xf0 then some ⟨3, 0x90, 0xbf, 0⟩
  else if n < 0xf4 then some ⟨3, 0x80, 0xbf, n - 0xf0⟩
  else if n = 0xf4 then some ⟨3, 0x80, 0x8f, 4⟩
  else none

/-- Read the bytes that are still to come of a character; none is read that cannot belong to it. -/
def readRest (bits : Nat) (low high : UInt8) : Nat → List UInt8 → Option Char × List UInt8
  | 0, bs => (some (Char.ofNat bits), bs)
  | _ + 1, [] => (none, [])
  | more + 1, b :: bs =>
    if low ≤ b ∧ b ≤ high then readRest (bits * 64 + (b.toNat - 0x80)) 0x80 0xbf more bs
    else (none, b :: bs)

theorem length_readRest_le (bits : Nat) (low high : UInt8) (more : Nat) (bs : List UInt8) :
    (readRest bits low high more bs).2.length ≤ bs.length := by
  fun_induction readRest bits low high more bs with
  | case1 => exact Nat.le_refl _
  | case2 => exact Nat.le_refl _
  | case3 _ _ _ _ _ _ _ ih => exact Nat.le_succ_of_le ih
  | case4 => exact Nat.le_refl _

/-- The character, or the error, at the head of some bytes, and the bytes behind it. -/
def readCharacter (b : UInt8) (bs : List UInt8) : Option Char × List UInt8 :=
  match lead? b with
  | some l => readRest l.bits l.low l.high l.more bs
  | none => (none, bs)

theorem length_readCharacter_le (b : UInt8) (bs : List UInt8) :
    (readCharacter b bs).2.length ≤ bs.length := by
  rw [readCharacter]
  split
  · exact length_readRest_le ..
  · exact Nat.le_refl _

/-- The characters and errors of some bytes, put on top of `done` one by one. -/
def decodeOnto (done : List (Option Char)) : List UInt8 → List (Option Char)
  | [] => done
  | b :: bs => decodeOnto ((readCharacter b bs).1 :: done) (readCharacter b bs).2
termination_by bs => bs.length
decreasing_by
  have := length_readCharacter_le b bs
  simp only [List.length_cons]
  omega

/-- The characters and errors of some bytes in order. -/
def decode (bs : List UInt8) : List (Option Char) := (decodeOnto [] bs).reverse

/-- The text of bytes that are UTF-8 throughout. -/
def ofBytes? (bs : List UInt8) : Option String :=
  let cs := decode bs
  if cs.all Option.isSome then some (String.ofList (cs.filterMap id)) else none

def ofBytesLossy (bs : List UInt8) : String :=
  String.ofList ((decode bs).map fun c => c.getD '\ufffd')

end WikiMarkup.Text
