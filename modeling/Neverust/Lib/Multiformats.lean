import Mathlib.Data.List.Basic
import Neverust.Lib.Bytes

/-!
# Varints and base32

The encodings content identifiers are written in.

* `varint`: unsigned numbers, seven bits to a byte, the lowest first. `readVarint_varint`: a number
  reads back, whatever follows it.
* `base32`: five bits to a character, the highest first, without padding characters.
  `ofBase32_base32`: bytes read back.
-/

namespace Multiformats

/-! ## Varints -/

def varintFrom : Nat → Nat → Bytes
  | 0, n => [UInt8.ofNat n]
  | k + 1, n =>
    if n < 128 then [UInt8.ofNat n] else UInt8.ofNat (128 + n % 128) :: varintFrom k (n / 128)

def varint (n : Nat) : Bytes := varintFrom n n

/-- The number at the start of `b`, and what follows it. -/
def readVarint : Bytes → Option (Nat × Bytes)
  | [] => none
  | x :: b =>
    if x.toNat < 128 then some (x.toNat, b)
    else
      match readVarint b with
      | none => none
      | some (n, rest) => some (x.toNat % 128 + 128 * n, rest)

/-- The low seven bits of a byte. -/
theorem toNat_lowBits (x : UInt8) : (x &&& 0x7F).toNat = x.toNat % 128 := by
  rw [UInt8.toNat_and]
  exact Nat.and_two_pow_sub_one_eq_mod x.toNat 7

/-- The bit that says whether a byte follows. -/
theorem highBit_eq_zero (x : UInt8) : x &&& 0x80 = 0 ↔ x.toNat < 128 := by
  have h : ∀ n < 256, UInt8.ofNat n &&& 0x80 = 0 ↔ n < 128 := by decide +kernel
  have hx := h x.toNat x.toNat_lt
  rwa [UInt8.ofNat_toNat] at hx

theorem varint_ne_nil (n : Nat) : varint n ≠ [] := by
  unfold varint
  cases n with
  | zero => simp [varintFrom]
  | succ n =>
    rw [varintFrom]
    split
    · simp
    · simp

theorem readVarint_varintFrom (k n : Nat) (rest : Bytes) (h : n ≤ k) :
    readVarint (varintFrom k n ++ rest) = some (n, rest) := by
  induction k generalizing n with
  | zero =>
    obtain rfl : n = 0 := by omega
    rfl
  | succ k ih =>
    have hlast : n < 128 → readVarint (UInt8.ofNat n :: rest) = some (n, rest) := by
      intro hn
      have hx : (UInt8.ofNat n).toNat = n := UInt8.toNat_ofNat_of_lt' (show n < 256 by omega)
      rw [readVarint, hx, if_pos hn]
    rw [varintFrom]
    split
    · rename_i hn
      exact hlast hn
    · rename_i hn
      have hx : (UInt8.ofNat (128 + n % 128)).toNat = 128 + n % 128 :=
        UInt8.toNat_ofNat_of_lt' (show 128 + n % 128 < 256 by omega)
      rw [List.cons_append, readVarint, hx, if_neg (by omega), ih (n / 128) (by omega)]
      simp only [Option.some.injEq, Prod.mk.injEq, and_true]
      omega

theorem readVarint_varint (n : Nat) (rest : Bytes) :
    readVarint (varint n ++ rest) = some (n, rest) :=
  readVarint_varintFrom n n rest (Nat.le_refl n)

/-- A number takes some bytes, which do not depend on what follows them. -/
theorem readVarint_eq_some {b rest : Bytes} {n : Nat} (h : readVarint b = some (n, rest)) :
    ∃ x bytes, b = x :: bytes ++ rest ∧
      ∀ rest', readVarint (x :: bytes ++ rest') = some (n, rest') := by
  induction b generalizing n with
  | nil => cases h
  | cons x b ih =>
    rw [readVarint] at h
    split at h
    · rename_i hx
      cases h
      exact ⟨x, [], rfl, fun rest' => by simp [readVarint, hx]⟩
    · rename_i hx
      cases hr : readVarint b with
      | none =>
        rw [hr] at h
        cases h
      | some p =>
        obtain ⟨m, r⟩ := p
        rw [hr] at h
        cases h
        obtain ⟨y, bytes, rfl, hread⟩ := ih hr
        refine ⟨x, y :: bytes, rfl, fun rest' => ?_⟩
        rw [List.cons_append, readVarint, if_neg hx, hread rest']

theorem length_readVarint {b rest : Bytes} {n : Nat} (h : readVarint b = some (n, rest)) :
    rest.length < b.length := by
  obtain ⟨x, bytes, rfl, -⟩ := readVarint_eq_some h
  simp only [List.cons_append, List.length_cons, List.length_append]
  omega

theorem length_varintFrom {k n j : Nat} (h : n < 2 ^ (7 * (j + 1))) :
    (varintFrom k n).length ≤ j + 1 := by
  induction j generalizing k n with
  | zero =>
    cases k with
    | zero => simp [varintFrom]
    | succ k => simp [varintFrom, show n < 128 by simpa using h]
  | succ j ih =>
    cases k with
    | zero => simp [varintFrom]
    | succ k =>
      rw [varintFrom]
      split
      · simp
      · have hdiv : n / 128 < 2 ^ (7 * (j + 1)) := by
          rw [Nat.div_lt_iff_lt_mul (by decide)]
          rw [show 7 * (j + 1 + 1) = 7 * (j + 1) + 7 by omega, Nat.pow_add] at h
          exact h
        have hlen := ih hdiv (k := k)
        rw [List.length_cons]
        omega

/-- A number below `2 ^ 64` takes at most ten bytes. -/
theorem length_varint_le {n : Nat} (h : n < 2 ^ 64) : (varint n).length ≤ 10 :=
  length_varintFrom (Nat.lt_trans h (by decide))

/-! ## Base32 -/

/-- The lowest `w` bits of `n`, the highest first. -/
def toBits (w n : Nat) : List Bool := (List.range w).map fun i => n.testBit (w - 1 - i)

def ofBits (bits : List Bool) : Nat := bits.foldl (fun n b => 2 * n + b.toNat) 0

/-- Groups of five bits, the last one filled up with zeros. -/
def fives : List Bool → List (List Bool)
  | a :: b :: c :: d :: e :: bits => [a, b, c, d, e] :: fives bits
  | [] => []
  | bits => [bits ++ List.replicate (5 - bits.length) false]

/-- Groups of eight bits; an incomplete last one is dropped. -/
def eights : List Bool → List (List Bool)
  | a :: b :: c :: d :: e :: f :: g :: h :: bits => [a, b, c, d, e, f, g, h] :: eights bits
  | _ => []

def alphabet : List Char :=
  ['a', 'b', 'c', 'd', 'e', 'f', 'g', 'h', 'i', 'j', 'k', 'l', 'm', 'n', 'o', 'p', 'q', 'r', 's',
    't', 'u', 'v', 'w', 'x', 'y', 'z', '2', '3', '4', '5', '6', '7']

def base32 (b : Bytes) : List Char :=
  (fives (b.flatMap fun x => toBits 8 x.toNat)).map fun g => alphabet.getD (ofBits g) 'a'

def ofBase32 (cs : List Char) : Option Bytes :=
  if cs.all fun c => c ∈ alphabet then
    some ((eights (cs.flatMap fun c => toBits 5 (alphabet.idxOf c))).map fun g =>
      UInt8.ofNat (ofBits g))
  else none

theorem ofBits_toBits_eight (x : UInt8) : UInt8.ofNat (ofBits (toBits 8 x.toNat)) = x := by
  have h : ∀ n < 256, ofBits (toBits 8 n) = n := by decide +kernel
  rw [h _ x.toNat_lt, UInt8.ofNat_toNat]

/-- A character stands for its group. -/
theorem toBits_idxOf {g : List Bool} (h : g.length = 5) :
    toBits 5 (alphabet.idxOf (alphabet.getD (ofBits g) 'a')) = g := by
  have hall : ∀ a b c d e : Bool,
      toBits 5 (alphabet.idxOf (alphabet.getD (ofBits [a, b, c, d, e]) 'a')) = [a, b, c, d, e] := by
    decide +kernel
  match g, h with
  | [a, b, c, d, e], _ => exact hall a b c d e

theorem getD_mem_alphabet (n : Nat) : alphabet.getD n 'a' ∈ alphabet := by
  rw [List.getD_eq_getElem?_getD]
  cases h : alphabet[n]? with
  | none => decide
  | some c => exact List.mem_of_getElem? h

theorem fives_spec (bits : List Bool) :
    (∀ g ∈ fives bits, g.length = 5) ∧
      ∃ p < 5, (fives bits).flatten = bits ++ List.replicate p false := by
  induction bits using fives.induct with
  | case1 a b c d e bits ih =>
    obtain ⟨hlen, p, hp, heq⟩ := ih
    rw [fives]
    refine ⟨fun g hg => ?_, p, hp, ?_⟩
    · rcases List.mem_cons.1 hg with rfl | hg
      · rfl
      · exact hlen g hg
    · rw [List.flatten_cons, heq]
      rfl
  | case2 => exact ⟨fun g hg => absurd hg List.not_mem_nil, 0, by decide, rfl⟩
  | case3 bits h5 h0 =>
    have hlt : bits.length < 5 := by
      match bits with
      | [] | [_] | [_, _] | [_, _, _] | [_, _, _, _] => simp
      | a :: b :: c :: d :: e :: bits => exact absurd rfl (h5 a b c d e bits)
    have hpos : 0 < bits.length := List.length_pos_iff.2 h0
    have heq : fives bits = [bits ++ List.replicate (5 - bits.length) false] := by
      rw [fives]
      · exact h5
      · exact h0
    rw [heq]
    refine ⟨fun g hg => ?_, 5 - bits.length, by omega, by simp⟩
    rw [List.mem_singleton.1 hg, List.length_append, List.length_replicate]
    omega

theorem eights_append {p : Nat} (hp : p < 8) (b : Bytes) :
    eights ((b.flatMap fun x => toBits 8 x.toNat) ++ List.replicate p false) =
      b.map fun x => toBits 8 x.toNat := by
  induction b with
  | nil =>
    match p, hp with
    | 0, _ | 1, _ | 2, _ | 3, _ | 4, _ | 5, _ | 6, _ | 7, _ => rfl
  | cons x b ih =>
    rw [List.flatMap_cons, List.append_assoc, List.map_cons, ← ih]
    rfl

/-- Bytes read back from their text. -/
theorem ofBase32_base32 (b : Bytes) : ofBase32 (base32 b) = some b := by
  obtain ⟨hlen, p, hp, hflat⟩ := fives_spec (b.flatMap fun x => toBits 8 x.toNat)
  have hall : ((base32 b).all fun c => c ∈ alphabet) = true := by
    rw [List.all_eq_true]
    intro c hc
    obtain ⟨g, -, rfl⟩ := List.mem_map.1 hc
    exact decide_eq_true (getD_mem_alphabet _)
  have hbits : ((base32 b).flatMap fun c => toBits 5 (alphabet.idxOf c)) =
      (b.flatMap fun x => toBits 8 x.toNat) ++ List.replicate p false := by
    rw [← hflat, base32, List.flatMap_map, ← List.flatMap_id]
    exact List.flatMap_congr fun g hg => toBits_idxOf (hlen g hg)
  rw [ofBase32, if_pos hall, hbits, eights_append (by omega), List.map_map]
  have hself : (fun x : UInt8 => UInt8.ofNat (ofBits (toBits 8 x.toNat))) = id :=
    funext ofBits_toBits_eight
  exact congrArg some ((congrArg (List.map · b) hself).trans (List.map_id b))

end Multiformats
