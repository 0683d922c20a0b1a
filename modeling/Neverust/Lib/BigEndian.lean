import Neverust.Lib.Bytes

/-!
# Big-endian numbers

`beBytes w n` are the `w` bytes of a number below `256 ^ w`, and `ofBe` reads them back: each is the
other's inverse on strings of that length.
-/

namespace Bytes

theorem leBytes_ofLe (b : Bytes) : leBytes b.length (ofLe b) = b := by
  induction b with
  | nil => rfl
  | cons x b ih =>
    have hx := x.toNat_lt
    have hof : ofLe (x :: b) = x.toNat + 256 * ofLe b := rfl
    have hdiv : ofLe (x :: b) / 256 = ofLe b := by omega
    have hmod : UInt8.ofNat (ofLe (x :: b)) = x := by
      apply UInt8.toNat_inj.1
      rw [UInt8.toNat_ofNat']
      omega
    rw [List.length_cons, leBytes, hdiv, hmod, ih]

/-- The number with the given big-endian bytes. -/
def ofBe (b : Bytes) : Nat := ofLe b.reverse

/-- The `w` big-endian bytes of `n`. -/
def beBytes (w n : Nat) : Bytes := (leBytes w n).reverse

@[simp] theorem length_beBytes (w n : Nat) : (beBytes w n).length = w := by
  simp [beBytes]

theorem ofBe_beBytes {w n : Nat} (h : n < 256 ^ w) : ofBe (beBytes w n) = n := by
  rw [ofBe, beBytes, List.reverse_reverse, ofLe_leBytes h]

theorem beBytes_ofBe {b : Bytes} {w : Nat} (h : b.length = w) : beBytes w (ofBe b) = b := by
  have hle := leBytes_ofLe b.reverse
  rw [List.length_reverse, h] at hle
  rw [beBytes, ofBe, hle, List.reverse_reverse]

theorem ofBe_lt {b : Bytes} {w : Nat} (h : b.length = w) : ofBe b < 256 ^ w := by
  have hlt := ofLe_lt b.reverse
  rwa [List.length_reverse, h] at hlt

end Bytes
