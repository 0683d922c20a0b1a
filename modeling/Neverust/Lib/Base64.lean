import Mathlib.Data.List.Basic
import Neverust.Lib.Bytes

/-!
# Base64 for URLs

Six bits to a character, the highest first, without padding characters: three bytes give four
characters, one byte two and two bytes three. A reader refuses a last character whose unused bits
are not zero.

* `ofBase64_base64`: bytes read back.
* `base64_ascii`: the text has letters, digits, `-` and `_` only.
-/

namespace Base64

def alphabet : List Char :=
  ['A', 'B', 'C', 'D', 'E', 'F', 'G', 'H', 'I', 'J', 'K', 'L', 'M', 'N', 'O', 'P', 'Q', 'R', 'S',
    'T', 'U', 'V', 'W', 'X', 'Y', 'Z', 'a', 'b', 'c', 'd', 'e', 'f', 'g', 'h', 'i', 'j', 'k', 'l',
    'm', 'n', 'o', 'p', 'q', 'r', 's', 't', 'u', 'v', 'w', 'x', 'y', 'z', '0', '1', '2', '3', '4',
    '5', '6', '7', '8', '9', '-', '_']

def digit (n : Nat) : Char := alphabet.getD n 'A'

def ofDigit (c : Char) : Option Nat := if c ∈ alphabet then some (alphabet.idxOf c) else none

def base64 : Bytes → List Char
  | a :: b :: c :: rest =>
    digit (a.toNat / 4) :: digit (a.toNat % 4 * 16 + b.toNat / 16) ::
      digit (b.toNat % 16 * 4 + c.toNat / 64) :: digit (c.toNat % 64) :: base64 rest
  | [a, b] =>
    [digit (a.toNat / 4), digit (a.toNat % 4 * 16 + b.toNat / 16), digit (b.toNat % 16 * 4)]
  | [a] => [digit (a.toNat / 4), digit (a.toNat % 4 * 16)]
  | [] => []

def ofBase64 : List Char → Option Bytes
  | w :: x :: y :: z :: rest => do
    let w ← ofDigit w
    let x ← ofDigit x
    let y ← ofDigit y
    let z ← ofDigit z
    let bs ← ofBase64 rest
    return UInt8.ofNat (w * 4 + x / 16) :: UInt8.ofNat (x % 16 * 16 + y / 4) ::
      UInt8.ofNat (y % 4 * 64 + z) :: bs
  | [w, x, y] => do
    let w ← ofDigit w
    let x ← ofDigit x
    let y ← ofDigit y
    if y % 4 = 0 then
      return [UInt8.ofNat (w * 4 + x / 16), UInt8.ofNat (x % 16 * 16 + y / 4)]
    else none
  | [w, x] => do
    let w ← ofDigit w
    let x ← ofDigit x
    if x % 16 = 0 then return [UInt8.ofNat (w * 4 + x / 16)] else none
  | [_] => none
  | [] => some []

theorem ofDigit_digit {n : Nat} (h : n < 64) : ofDigit (digit n) = some n := by
  have hall : ∀ n < 64, ofDigit (digit n) = some n := by decide +kernel
  exact hall n h

theorem digit_mem (n : Nat) : digit n ∈ alphabet := by
  rw [digit, List.getD_eq_getElem?_getD]
  cases h : alphabet[n]? with
  | none => decide
  | some c => exact List.mem_of_getElem? h

theorem ofNat_eq {x : UInt8} {n : Nat} (h : n = x.toNat) : UInt8.ofNat n = x := by
  rw [h, UInt8.ofNat_toNat]

/-- **Bytes read back** from their text. -/
theorem ofBase64_base64 (bs : Bytes) : ofBase64 (base64 bs) = some bs := by
  induction bs using base64.induct with
  | case1 a b c rest ih =>
    have ha := a.toNat_lt
    have hb := b.toNat_lt
    have hc := c.toNat_lt
    have h1 : a.toNat / 4 * 4 + (a.toNat % 4 * 16 + b.toNat / 16) / 16 = a.toNat := by omega
    have h2 : (a.toNat % 4 * 16 + b.toNat / 16) % 16 * 16 +
        (b.toNat % 16 * 4 + c.toNat / 64) / 4 = b.toNat := by omega
    have h3 : (b.toNat % 16 * 4 + c.toNat / 64) % 4 * 64 + c.toNat % 64 = c.toNat := by omega
    rw [base64, ofBase64, ofDigit_digit (by omega), ofDigit_digit (by omega),
      ofDigit_digit (by omega), ofDigit_digit (by omega), ih]
    simp only [Option.bind_eq_bind, Option.bind_some, Option.pure_def, ofNat_eq h1, ofNat_eq h2,
      ofNat_eq h3]
  | case2 a b =>
    have ha := a.toNat_lt
    have hb := b.toNat_lt
    have h1 : a.toNat / 4 * 4 + (a.toNat % 4 * 16 + b.toNat / 16) / 16 = a.toNat := by omega
    have h2 : (a.toNat % 4 * 16 + b.toNat / 16) % 16 * 16 + b.toNat % 16 * 4 / 4 = b.toNat := by
      omega
    have hpad : b.toNat % 16 * 4 % 4 = 0 := by omega
    rw [base64, ofBase64, ofDigit_digit (by omega), ofDigit_digit (by omega),
      ofDigit_digit (by omega)]
    simp only [Option.bind_eq_bind, Option.bind_some, Option.pure_def, ofNat_eq h1, ofNat_eq h2,
      if_pos hpad]
  | case3 a =>
    have ha := a.toNat_lt
    have h1 : a.toNat / 4 * 4 + a.toNat % 4 * 16 / 16 = a.toNat := by omega
    have hpad : a.toNat % 4 * 16 % 16 = 0 := by omega
    rw [base64, ofBase64, ofDigit_digit (by omega), ofDigit_digit (by omega)]
    simp only [Option.bind_eq_bind, Option.bind_some, Option.pure_def, ofNat_eq h1, if_pos hpad]
  | case4 => rfl

theorem base64_ascii (bs : Bytes) : ∀ c ∈ base64 bs, c ∈ alphabet := by
  induction bs using base64.induct with
  | case1 a b c rest ih => simpa [base64, digit_mem] using ih
  | case2 a b => simp [base64, digit_mem]
  | case3 a => simp [base64, digit_mem]
  | case4 => simp [base64]

end Base64
