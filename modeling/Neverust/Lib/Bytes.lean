import Mathlib.Data.List.GetD
import Mathlib.Tactic.Ring

/-!
# Byte strings, fixed-size buffers and file contents

* `leBytes`, `ofLe`, `u32OfLe`, `u64OfLe`: little-endian numbers.
* `byteAt`: a byte of a string, `0` past its end. Reads and writes are described by it.
* `Buffer n`: `n` bytes with `Buffer.put` (copy into the buffer) and `Buffer.slice`.
* `readAt`, `writeAt`, `extendTo`: positioned reads and writes of a file's contents. A write past
  the end fills the gap with zeros.
-/

abbrev Bytes := List UInt8

namespace Bytes

/-! ## Little-endian numbers -/

/-- The number with the given little-endian bytes. -/
def ofLe (bs : Bytes) : Nat := bs.foldr (fun b n => b.toNat + 256 * n) 0

/-- The first `w` little-endian bytes of `n`. -/
def leBytes : Nat → Nat → Bytes
  | 0, _ => []
  | w + 1, n => UInt8.ofNat n :: leBytes w (n / 256)

@[simp] theorem length_leBytes (w n : Nat) : (leBytes w n).length = w := by
  induction w generalizing n with
  | zero => rfl
  | succ w ih => simp [leBytes, ih]

theorem ofLe_leBytes {w n : Nat} (h : n < 256 ^ w) : ofLe (leBytes w n) = n := by
  induction w generalizing n with
  | zero => simp only [pow_zero, Nat.lt_one_iff] at h; simp [leBytes, ofLe, h]
  | succ w ih =>
    have hd : n / 256 < 256 ^ w := by
      rw [pow_succ] at h
      exact Nat.div_lt_of_lt_mul (by rw [Nat.mul_comm]; exact h)
    have ih := ih hd
    unfold ofLe at ih ⊢
    rw [leBytes, List.foldr_cons, ih, UInt8.toNat_ofNat']
    omega

theorem ofLe_lt : ∀ b : Bytes, ofLe b < 256 ^ b.length
  | [] => Nat.one_pos
  | x :: b => by
    have ih := ofLe_lt b
    have hx := x.toNat_lt
    show x.toNat + 256 * ofLe b < 256 ^ (b.length + 1)
    rw [Nat.pow_succ]
    omega

/-- `u32::from_le_bytes`. -/
def u32OfLe (bs : Bytes) : UInt32 := UInt32.ofNat (ofLe bs)

/-- `u64::from_le_bytes`. -/
def u64OfLe (bs : Bytes) : UInt64 := UInt64.ofNat (ofLe bs)

@[simp] theorem u32OfLe_leBytes (x : UInt32) : u32OfLe (leBytes 4 x.toNat) = x := by
  rw [u32OfLe, ofLe_leBytes (by simpa using x.toNat_lt), UInt32.ofNat_toNat]

@[simp] theorem u64OfLe_leBytes (x : UInt64) : u64OfLe (leBytes 8 x.toNat) = x := by
  rw [u64OfLe, ofLe_leBytes (by simpa using x.toNat_lt), UInt64.ofNat_toNat]

/-! ## Single bytes -/

/-- The byte at `i`, `0` past the end. -/
def byteAt (b : Bytes) (i : Nat) : UInt8 := b.getD i 0

theorem byteAt_append (a b : Bytes) (i : Nat) :
    byteAt (a ++ b) i = if i < a.length then byteAt a i else byteAt b (i - a.length) := by
  unfold byteAt
  split
  · rename_i h; exact List.getD_append _ _ _ _ h
  · rename_i h; exact List.getD_append_right _ _ _ _ (by omega)

theorem byteAt_replicate (n i : Nat) : byteAt (List.replicate n 0) i = 0 := by
  rcases Nat.lt_or_ge i n with h | h
  · simp [byteAt, List.getD_eq_getElem?_getD, h]
  · exact List.getD_eq_default _ _ (by simpa using h)

theorem byteAt_of_le {b : Bytes} {i : Nat} (h : b.length ≤ i) : byteAt b i = 0 :=
  List.getD_eq_default _ _ h

/-- Byte strings of one length with the same bytes are equal. -/
theorem ext_byteAt {a b : Bytes} (hl : a.length = b.length)
    (h : ∀ i < a.length, byteAt a i = byteAt b i) : a = b := by
  refine List.ext_getElem hl fun i hi hi' => ?_
  have := h i hi
  rwa [byteAt, byteAt, List.getD_eq_getElem _ _ hi, List.getD_eq_getElem _ _ hi'] at this

/-! ## Slices -/

/-- The `n` bytes from `o` on. -/
def slice (b : Bytes) (o n : Nat) : Bytes := (List.range n).map fun k => byteAt b (o + k)

@[simp] theorem length_slice (b : Bytes) (o n : Nat) : (slice b o n).length = n := by
  simp [slice]

theorem byteAt_slice {b : Bytes} {o n k : Nat} (h : k < n) :
    byteAt (slice b o n) k = byteAt b (o + k) := by
  simp [byteAt, slice, List.getD_eq_getElem?_getD, h]

theorem slice_congr {a b : Bytes} {o o' n : Nat}
    (h : ∀ k < n, byteAt a (o + k) = byteAt b (o' + k)) : slice a o n = slice b o' n :=
  List.map_congr_left fun k hk => h k (List.mem_range.1 hk)

/-- The middle part of a string. -/
theorem slice_middle {a b c : Bytes} {o n : Nat} (ho : a.length = o) (hn : b.length = n) :
    slice (a ++ b ++ c) o n = b := by
  subst ho hn
  refine ext_byteAt (by simp) fun i hi => ?_
  have hi : i < b.length := by simpa using hi
  rw [byteAt_slice hi, byteAt_append, if_pos (by rw [List.length_append]; omega), byteAt_append,
    if_neg (by omega), Nat.add_sub_cancel_left]

/-! ## Files -/

/-- Reading exactly `n` bytes at `o`; `none` at an unexpected end of file. -/
def readAt (f : Bytes) (o n : Nat) : Option Bytes :=
  if n = 0 ∨ o + n ≤ f.length then some (slice f o n) else none

/-- The contents extended with zeros to `n` bytes. -/
def extendTo (f : Bytes) (n : Nat) : Bytes := f ++ List.replicate (n - f.length) 0

/-- Writing `d` at `o`. -/
def writeAt (f : Bytes) (o : Nat) (d : Bytes) : Bytes :=
  if d = [] then f
  else (List.range (max f.length (o + d.length))).map fun i =>
    if o ≤ i ∧ i < o + d.length then byteAt d (i - o) else byteAt f i

theorem readAt_of_le {f : Bytes} {o n : Nat} (h : o + n ≤ f.length) :
    readAt f o n = some (slice f o n) := by
  simp [readAt, h]

@[simp] theorem length_extendTo (f : Bytes) (n : Nat) :
    (extendTo f n).length = max f.length n := by
  simp [extendTo]; omega

@[simp] theorem byteAt_extendTo (f : Bytes) (n i : Nat) : byteAt (extendTo f n) i = byteAt f i := by
  rw [extendTo, byteAt_append]
  split
  · rfl
  · rename_i h
    rw [byteAt_replicate, byteAt_of_le (by omega)]

theorem length_writeAt {f d : Bytes} (o : Nat) (hd : d ≠ []) :
    (writeAt f o d).length = max f.length (o + d.length) := by
  simp [writeAt, hd]

theorem length_le_writeAt (f d : Bytes) (o : Nat) : f.length ≤ (writeAt f o d).length := by
  by_cases hd : d = []
  · simp [writeAt, hd]
  · rw [length_writeAt o hd]; exact le_max_left _ _

theorem end_le_writeAt {f d : Bytes} {o : Nat} (h : d ≠ [] ∨ o ≤ f.length) :
    o + d.length ≤ (writeAt f o d).length := by
  by_cases hd : d = []
  · simp [writeAt, hd]
    exact h.resolve_left (fun hn => hn hd)
  · rw [length_writeAt o hd]; exact le_max_right _ _

/-- A write changes the bytes of its extent only. -/
theorem byteAt_writeAt (f d : Bytes) (o i : Nat) :
    byteAt (writeAt f o d) i =
      if o ≤ i ∧ i < o + d.length then byteAt d (i - o) else byteAt f i := by
  by_cases hd : d = []
  · rw [writeAt, if_pos hd, if_neg (by simp [hd])]
  · rcases Nat.lt_or_ge i (max f.length (o + d.length)) with h | h
    · rw [writeAt, if_neg hd, byteAt, List.getD_eq_getElem _ _ (by simpa using h)]
      simp
    · rw [byteAt_of_le (by rw [length_writeAt o hd]; exact h), if_neg (by omega),
        byteAt_of_le (by omega)]

theorem slice_writeAt_same (f d : Bytes) (o : Nat) : slice (writeAt f o d) o d.length = d := by
  refine ext_byteAt (by simp) fun k hk => ?_
  have hk : k < d.length := by simpa using hk
  rw [byteAt_slice hk, byteAt_writeAt, if_pos (by omega), Nat.add_sub_cancel_left]

theorem slice_writeAt_disjoint {f d : Bytes} {o o' n : Nat}
    (h : o' + n ≤ o ∨ o + d.length ≤ o') : slice (writeAt f o d) o' n = slice f o' n :=
  slice_congr fun k hk => by rw [byteAt_writeAt, if_neg (by omega)]

/-- Writing at the end appends. -/
theorem writeAt_length (f d : Bytes) : writeAt f f.length d = f ++ d := by
  by_cases hd : d = []
  · simp [writeAt, hd]
  · refine ext_byteAt ?_ fun i hi => ?_
    · rw [length_writeAt _ hd, List.length_append]
      omega
    · rw [byteAt_writeAt, byteAt_append]
      by_cases h : i < f.length
      · rw [if_pos h, if_neg (by omega)]
      · rw [if_neg h]
        split
        · rfl
        · rw [byteAt_of_le (show f.length ≤ i by omega), byteAt_of_le (by omega)]

end Bytes

/-! ## Buffers -/

/-- A byte array of fixed size. -/
structure Buffer (n : Nat) where
  bytes : Bytes
  len : bytes.length = n
  deriving Repr, DecidableEq

namespace Buffer

open Bytes

variable {n : Nat}

/-- A zeroed buffer. -/
def zero (n : Nat) : Buffer n := ⟨List.replicate n 0, by simp⟩

/-- The first `n` bytes of a string, zeros past its end. -/
def ofBytes (n : Nat) (b : Bytes) : Buffer n := ⟨Bytes.slice b 0 n, by simp⟩

/-- The byte at `i`. -/
def byte (b : Buffer n) (i : Nat) : UInt8 := byteAt b.bytes i

/-- The `m` bytes from `o` on. -/
def slice (b : Buffer n) (o m : Nat) : Bytes := Bytes.slice b.bytes o m

/-- `src` copied into the buffer at `o`. -/
def put (b : Buffer n) (o : Nat) (src : Bytes) : Buffer n :=
  ⟨(List.range n).map fun i =>
    if o ≤ i ∧ i < o + src.length then byteAt src (i - o) else byteAt b.bytes i, by simp⟩

@[ext] theorem ext_byte {a b : Buffer n} (h : ∀ i < n, a.byte i = b.byte i) : a = b := by
  obtain ⟨a, ha⟩ := a
  obtain ⟨b, hb⟩ := b
  simp only [Buffer.mk.injEq]
  exact ext_byteAt (by omega) fun i hi => h i (by omega)

theorem byte_of_le {b : Buffer n} {i : Nat} (h : n ≤ i) : b.byte i = 0 :=
  byteAt_of_le (by rw [b.len]; exact h)

@[simp] theorem byte_zero (i : Nat) : (zero n).byte i = 0 := byteAt_replicate n i

theorem byte_ofBytes {b : Bytes} {i : Nat} (h : i < n) : (ofBytes n b).byte i = byteAt b i := by
  simp [byte, ofBytes, byteAt_slice h]

theorem byte_put (b : Buffer n) (o : Nat) (src : Bytes) {i : Nat} (h : i < n) :
    (b.put o src).byte i =
      if o ≤ i ∧ i < o + src.length then byteAt src (i - o) else b.byte i := by
  simp [byte, put, byteAt, List.getD_eq_getElem?_getD, h]

theorem byte_put_outside (b : Buffer n) {o i : Nat} {src : Bytes}
    (h : i < o ∨ o + src.length ≤ i) : (b.put o src).byte i = b.byte i := by
  rcases Nat.lt_or_ge i n with hi | hi
  · rw [byte_put b o src hi, if_neg (by omega)]
  · rw [byte_of_le hi, byte_of_le hi]

theorem byte_put_inside (b : Buffer n) {o : Nat} {x : UInt8} (h : o < n) :
    (b.put o [x]).byte o = x := by
  rw [byte_put b o [x] h, if_pos (by simp)]
  simp [byteAt]

theorem slice_congr {a b : Buffer n} {o o' m : Nat}
    (h : ∀ k < m, a.byte (o + k) = b.byte (o' + k)) : a.slice o m = b.slice o' m :=
  Bytes.slice_congr h

/-- A copied string reads back. -/
theorem slice_put_same (b : Buffer n) {o : Nat} {src : Bytes} (h : o + src.length ≤ n) :
    (b.put o src).slice o src.length = src := by
  refine ext_byteAt (by simp [slice]) fun k hk => ?_
  have hk : k < src.length := by simpa [slice] using hk
  rw [slice, byteAt_slice hk]
  change (b.put o src).byte (o + k) = _
  rw [byte_put _ _ _ (by omega), if_pos (by omega), Nat.add_sub_cancel_left]

theorem slice_put_disjoint (b : Buffer n) {o o' m : Nat} {src : Bytes}
    (h : o' + m ≤ o ∨ o + src.length ≤ o') : (b.put o src).slice o' m = b.slice o' m :=
  slice_congr fun k hk => byte_put_outside b (by omega)

theorem ofBytes_bytes (b : Buffer n) : ofBytes n b.bytes = b := by
  refine ext_byte fun i hi => ?_
  rw [byte_ofBytes hi]
  rfl

end Buffer
