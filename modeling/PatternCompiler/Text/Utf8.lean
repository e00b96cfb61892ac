/-!
Decoding UTF-8. Bytes that belong to no character are grouped into the longest pieces that could
have begun one, and each such piece counts as one fault.
-/

set_option autoImplicit false
set_option relaxedAutoImplicit false

namespace PatternCompiler.Text.Utf8

/-- What the first byte of a character says: how many bytes follow, the range of the first of them,
and the bits it contributes itself. -/
structure Lead where
  following : Nat
  low : Nat := 0x80
  high : Nat := 0xBF
  bits : Nat

/-- The lead of a first byte. The ranges leave out overlong forms, surrogates and what is beyond the
last character. -/
def lead? (b : Nat) : Option Lead :=
  if b < 0x80 then some { following := 0, bits := b }
  else if b < 0xC2 then none
  else if b < 0xE0 then some { following := 1, bits := b % 32 }
  else if b = 0xE0 then some { following := 2, low := 0xA0, bits := 0 }
  else if b = 0xED then some { following := 2, high := 0x9F, bits := 13 }
  else if b < 0xF0 then some { following := 2, bits := b % 16 }
  else if b = 0xF0 then some { following := 3, low := 0x90, bits := 0 }
  else if b < 0xF4 then some { following := 3, bits := b % 8 }
  else if b = 0xF4 then some { following := 3, high := 0x8F, bits := 4 }
  else none

/-- Reads the bytes that follow a first one, the next within the given range; `none` if one is
missing, with the bytes from there on. -/
def follow : (count low high bits : Nat) → List UInt8 → Option Nat × List UInt8
  | 0, _, _, bits, rest => (some bits, rest)
  | _ + 1, _, _, _, [] => (none, [])
  | count + 1, low, high, bits, b :: rest =>
      if low ≤ b.toNat ∧ b.toNat ≤ high then
        follow count 0x80 0xBF (64 * bits + b.toNat % 64) rest
      else (none, b :: rest)

def next (b : UInt8) (rest : List UInt8) : Option Char × List UInt8 :=
  match lead? b.toNat with
  | none => (none, rest)
  | some lead =>
      let (bits, rest) := follow lead.following lead.low lead.high lead.bits rest
      (bits.map Char.ofNat, rest)

theorem length_follow_le (count low high bits : Nat) (rest : List UInt8) :
    (follow count low high bits rest).2.length ≤ rest.length := by
  induction count generalizing low high bits rest with
  | zero => simp [follow]
  | succ count ih =>
      cases rest with
      | nil => simp [follow]
      | cons b rest =>
          simp only [follow]
          split
          · exact Nat.le_succ_of_le (ih ..)
          · exact Nat.le_refl _

theorem length_next_le (b : UInt8) (rest : List UInt8) :
    (next b rest).2.length ≤ rest.length := by
  unfold next
  split
  · exact Nat.le_refl _
  · exact length_follow_le ..

/-- The characters of a byte sequence, `none` for each piece that belongs to no character. -/
def pieces : List UInt8 → List (Option Char)
  | [] => []
  | b :: rest => (next b rest).1 :: pieces (next b rest).2
termination_by bytes => bytes.length
decreasing_by exact Nat.lt_succ_of_le (length_next_le b rest)

def decode? (bytes : List UInt8) : Option (List Char) :=
  (pieces bytes).mapM id

def decodeLossy (bytes : List UInt8) : List Char :=
  (pieces bytes).map fun c => c.getD '\ufffd'

end PatternCompiler.Text.Utf8
