import Neverust.Discv5.Rpc

/-!
# Varints and fields on the wire

What the decoder of the RPC codec reads, told by the numbers that are there.

* `decodeVarint_ok_iff`: a varint of at most ten bytes, of whose number the lowest 64 bits are kept.
* `decodeField_ok_iff`, `decodeField_returns_iff`: the fields that are read, and when a field leads
  to an overflow.
* `decodeAllFields_ok_iff`: the fields of a buffer, one after the other.
-/

namespace Discv5

open Multiformats Rust

/-! ## Varints -/

/-- One byte more: its low bits stand above the bits that are there. -/
theorem or_shiftLeft {m s : Nat} (x : Nat) (hm : m < 2 ^ s) (hs : s < 64) :
    UInt64.ofNat m ||| UInt64.ofNat x <<< UInt64.ofNat s = UInt64.ofNat (m + x * 2 ^ s) := by
  have hsum : m + x * 2 ^ s = m ||| x <<< s := by
    rw [Nat.or_comm, Nat.shiftLeft_eq, Nat.mul_comm x, ← Nat.two_pow_add_eq_or_of_lt hm,
      Nat.add_comm]
  have hmod : s % 2 ^ 64 % 64 = s := by omega
  apply UInt64.toNat_inj.1
  rw [UInt64.toNat_or, UInt64.toNat_shiftLeft, UInt64.toNat_ofNat', UInt64.toNat_ofNat',
    UInt64.toNat_ofNat', UInt64.toNat_ofNat', hmod, hsum, Nat.or_mod_two_pow, Nat.shiftLeft_eq,
    Nat.shiftLeft_eq, Nat.mod_mul_mod]

theorem decodeVarintFrom_cons {i m : Nat} (byte : UInt8) (data : Bytes) (hm : m < 2 ^ (7 * i))
    (hi : i < 10) :
    decodeVarintFrom i (UInt64.ofNat m) (byte :: data) =
      if byte.toNat < 128 then .ok (UInt64.ofNat (m + byte.toNat % 128 * 2 ^ (7 * i)), i + 1)
      else decodeVarintFrom (i + 1) (UInt64.ofNat (m + byte.toNat % 128 * 2 ^ (7 * i))) data := by
  have hlow : (byte &&& 0x7F).toUInt64 = UInt64.ofNat (byte.toNat % 128) := by
    apply UInt64.toNat_inj.1
    rw [UInt8.toNat_toUInt64, toNat_lowBits, UInt64.toNat_ofNat']
    omega
  rw [decodeVarintFrom, if_neg (by omega), shl64, if_pos (by omega)]
  simp only [ok_bind, pure_eq_ok, hlow, or_shiftLeft _ hm (show 7 * i < 64 by omega), highBit_eq_zero]

theorem decodeVarintFrom_ok_iff {data : Bytes} {i m k : Nat} {v : UInt64} (hm : m < 2 ^ (7 * i)) :
    decodeVarintFrom i (UInt64.ofNat m) data = .ok (v, k) ↔
      ∃ n rest, readVarint data = some (n, rest) ∧ i + data.length = k + rest.length ∧ k ≤ 10 ∧
        v = UInt64.ofNat (m + n * 2 ^ (7 * i)) := by
  induction data generalizing i m with
  | nil => simp [decodeVarintFrom, custom, readVarint]
  | cons byte data ih =>
    by_cases hi : i < 10
    · rw [decodeVarintFrom_cons byte data hm hi, readVarint]
      by_cases hb : byte.toNat < 128
      · rw [if_pos hb, if_pos hb, Nat.mod_eq_of_lt hb]
        constructor
        · intro h
          cases h
          exact ⟨_, _, rfl, by simp only [List.length_cons]; omega, by omega, rfl⟩
        · rintro ⟨n, rest, h, hk, -, rfl⟩
          cases h
          simp only [List.length_cons] at hk
          rw [show k = i + 1 by omega]
      · have hm' : m + byte.toNat % 128 * 2 ^ (7 * i) < 2 ^ (7 * (i + 1)) := by
          rw [show 7 * (i + 1) = 7 + 7 * i by omega, Nat.pow_add]
          have hle : byte.toNat % 128 * 2 ^ (7 * i) ≤ 127 * 2 ^ (7 * i) :=
            Nat.mul_le_mul_right _ (by omega)
          omega
        have hsum : ∀ n, m + byte.toNat % 128 * 2 ^ (7 * i) + n * 2 ^ (7 * (i + 1)) =
            m + (byte.toNat % 128 + 128 * n) * 2 ^ (7 * i) := by
          intro n
          rw [show 7 * (i + 1) = 7 + 7 * i by omega, Nat.pow_add]
          ring
        rw [if_neg hb, if_neg hb, ih hm']
        constructor
        · rintro ⟨n, rest, h, hk, hle, rfl⟩
          refine ⟨byte.toNat % 128 + 128 * n, rest, by rw [h], ?_, hle, by rw [hsum]⟩
          simp only [List.length_cons]
          omega
        · rintro ⟨n, rest, h, hk, hle, rfl⟩
          cases hr : readVarint data with
          | none =>
            rw [hr] at h
            cases h
          | some p =>
            obtain ⟨n', rest'⟩ := p
            rw [hr] at h
            cases h
            simp only [List.length_cons] at hk
            exact ⟨n', _, rfl, by omega, hle, by rw [hsum]⟩
    · rw [decodeVarintFrom, if_pos (by omega)]
      constructor
      · intro h
        cases h
      · rintro ⟨n, rest, h, hk, hle, -⟩
        have hlen := length_readVarint h
        simp only [List.length_cons] at hk hlen
        omega

/-- A varint is read if it takes at most ten bytes, and the lowest 64 bits of its number are
kept. -/
theorem decodeVarint_ok_iff {data : Bytes} {v : UInt64} {k : Nat} :
    decodeVarint data = .ok (v, k) ↔
      ∃ n rest, readVarint data = some (n, rest) ∧ data.length = k + rest.length ∧ k ≤ 10 ∧
        v = UInt64.ofNat n := by
  rw [decodeVarint, show (0 : UInt64) = UInt64.ofNat 0 by rfl,
    decodeVarintFrom_ok_iff (show 0 < 2 ^ (7 * 0) by decide)]
  simp

theorem decodeVarintFrom_returns (data : Bytes) (i m : Nat) (hm : m < 2 ^ (7 * i)) :
    Returns (decodeVarintFrom i (UInt64.ofNat m) data) := by
  induction data generalizing i m with
  | nil => exact Returns.err _
  | cons byte data ih =>
    by_cases hi : i < 10
    · rw [decodeVarintFrom_cons byte data hm hi]
      split
      · exact Returns.ok _
      · refine ih (i + 1) _ ?_
        rw [show 7 * (i + 1) = 7 + 7 * i by omega, Nat.pow_add]
        have hle : byte.toNat % 128 * 2 ^ (7 * i) ≤ 127 * 2 ^ (7 * i) :=
          Nat.mul_le_mul_right _ (by omega)
        omega
    · rw [decodeVarintFrom, if_pos (by omega)]
      exact Returns.err _

theorem decodeVarint_returns (data : Bytes) : Returns (decodeVarint data) :=
  decodeVarintFrom_returns data 0 0 (by decide)

/-- A number of 64 bits is read back, whatever follows it. -/
theorem decodeVarint_encodeVarint {n : Nat} (h : n < 2 ^ 64) (rest : Bytes) :
    decodeVarint (encodeVarint n ++ rest) = .ok (UInt64.ofNat n, (encodeVarint n).length) :=
  decodeVarint_ok_iff.2 ⟨n, rest, readVarint_varint n rest, List.length_append,
    length_varint_le h, rfl⟩

theorem decodeVarint_len {data : Bytes} {v : UInt64} {k : Nat}
    (h : decodeVarint data = .ok (v, k)) : 0 < k ∧ k ≤ data.length ∧ k ≤ 10 := by
  obtain ⟨n, rest, hr, hk, hle, -⟩ := decodeVarint_ok_iff.1 h
  have hlen := length_readVarint hr
  omega

theorem drop_readVarint {data rest : Bytes} {n : Nat} (h : readVarint data = some (n, rest)) :
    data.drop (data.length - rest.length) = rest := by
  obtain ⟨x, bytes, rfl, -⟩ := readVarint_eq_some h
  rw [List.length_append, Nat.add_sub_cancel, List.drop_left]

theorem range_drop {ε : Type} {data : Bytes} {k : Nat} (h : k ≤ data.length) :
    (range data k data.length : Result ε Bytes) = .ok (data.drop k) := by
  rw [range_of_le h (Nat.le_refl _), List.take_length]

/-! ## Fields -/

/-- A field is read if its key and the number after it take at most ten bytes each, and the payload
fits. Of the field number the lowest 32 bits are kept. -/
theorem decodeField_ok_iff {data : Bytes} {f : Field} {c : Nat} (hlen : data.length < 2 ^ 63) :
    decodeField data = .ok (f, c) ↔
      ∃ n rest m rest', readVarint data = some (n, rest) ∧ data.length ≤ rest.length + 10 ∧
        readVarint rest = some (m, rest') ∧ rest.length ≤ rest'.length + 10 ∧
        (n % 8 = 0 ∧ f = ⟨n / 8 % 2 ^ 32, 0, encodeVarint (m % 2 ^ 64)⟩ ∧
            c + rest'.length = data.length ∨
          n % 8 = 2 ∧ m % 2 ^ 64 ≤ rest'.length ∧
            f = ⟨n / 8 % 2 ^ 32, 2, rest'.take (m % 2 ^ 64)⟩ ∧
            c + rest'.length = data.length + m % 2 ^ 64) := by
  constructor
  · intro h
    obtain ⟨⟨key, keyLen⟩, hkey, h⟩ := bind_eq_ok h
    obtain ⟨n, rest, hr, hk, hle, rfl⟩ := decodeVarint_ok_iff.1 hkey
    have hdrop := drop_readVarint hr
    rw [show data.length - rest.length = keyLen by omega] at hdrop
    have htype : (UInt64.ofNat n).toNat % 8 = n % 8 := by rw [UInt64.toNat_ofNat']; omega
    have hnum : (UInt64.ofNat n).toNat / 8 % 2 ^ 32 = n / 8 % 2 ^ 32 := by
      rw [UInt64.toNat_ofNat']
      omega
    simp only [htype, hnum, range_drop (show keyLen ≤ data.length by omega), hdrop, ok_bind] at h
    split at h
    · rename_i h0
      obtain ⟨⟨val, valLen⟩, hval, h⟩ := bind_eq_ok h
      obtain ⟨m, rest', hr', hk', hle', rfl⟩ := decodeVarint_ok_iff.1 hval
      rw [usizeAdd_of_lt (by unfold usizeSize; omega)] at h
      cases h
      refine ⟨n, rest, m, rest', hr, by omega, hr', by omega, .inl ⟨h0, ?_, by omega⟩⟩
      rw [UInt64.toNat_ofNat', h0]
    · split at h
      · rename_i h2
        obtain ⟨⟨length, lenLen⟩, hval, h⟩ := bind_eq_ok h
        obtain ⟨m, rest', hr', hk', hle', rfl⟩ := decodeVarint_ok_iff.1 hval
        obtain ⟨stop, hstop, h⟩ := bind_eq_ok h
        have hdrop' := drop_readVarint hr'
        rw [show rest.length - rest'.length = lenLen by omega] at hdrop'
        unfold usizeAdd at hstop
        split at hstop
        · cases hstop
          rw [UInt64.toNat_ofNat'] at h
          split at h
          · cases h
          · rename_i hfit
            rw [range_of_le (by omega) (by omega)] at h
            simp only [ok_bind] at h
            rw [usizeAdd_of_lt (by unfold usizeSize; omega)] at h
            cases h
            refine ⟨n, rest, m, rest', hr, by omega, hr', by omega,
              .inr ⟨h2, by omega, ?_, by omega⟩⟩
            rw [h2, List.drop_take, hdrop', Nat.add_sub_cancel_left]
        · cases hstop
      · cases h
  · rintro ⟨n, rest, m, rest', hr, hshort, hr', hshort', hcase⟩
    have hl := length_readVarint hr
    have hl' := length_readVarint hr'
    have hkey : decodeVarint data = .ok (UInt64.ofNat n, data.length - rest.length) :=
      decodeVarint_ok_iff.2 ⟨n, rest, hr, by omega, by omega, rfl⟩
    have hval : decodeVarint rest = .ok (UInt64.ofNat m, rest.length - rest'.length) :=
      decodeVarint_ok_iff.2 ⟨m, rest', hr', by omega, by omega, rfl⟩
    have htype : (UInt64.ofNat n).toNat % 8 = n % 8 := by rw [UInt64.toNat_ofNat']; omega
    have hnum : (UInt64.ofNat n).toNat / 8 % 2 ^ 32 = n / 8 % 2 ^ 32 := by
      rw [UInt64.toNat_ofNat']
      omega
    rw [decodeField, hkey]
    simp only [ok_bind, htype, hnum, range_drop (Nat.sub_le data.length rest.length),
      drop_readVarint hr, hval]
    obtain ⟨h0, rfl, hc⟩ | ⟨h2, hfit, rfl, hc⟩ := hcase
    · rw [if_pos h0, usizeAdd_of_lt (by unfold usizeSize; omega), UInt64.toNat_ofNat', h0,
        show data.length - rest.length + (rest.length - rest'.length) = c by omega]
      rfl
    · rw [if_neg (by omega), if_pos h2, UInt64.toNat_ofNat',
        usizeAdd_of_lt (by unfold usizeSize; omega)]
      simp only [ok_bind]
      rw [if_neg (by omega), range_of_le (by omega) (by omega), ok_bind,
        usizeAdd_of_lt (by unfold usizeSize; omega), h2, List.drop_take, drop_readVarint hr',
        Nat.add_sub_cancel_left, show data.length - rest.length +
          (rest.length - rest'.length + m % 2 ^ 64) = c by omega]
      rfl

theorem decodeField_consumed {data : Bytes} {f : Field} {c : Nat} (hlen : data.length < 2 ^ 63)
    (h : decodeField data = .ok (f, c)) : 0 < c ∧ c ≤ data.length := by
  obtain ⟨n, rest, m, rest', hr, -, hr', -, hcase⟩ := (decodeField_ok_iff hlen).1 h
  have hl := length_readVarint hr
  have hl' := length_readVarint hr'
  obtain ⟨-, -, hc⟩ | ⟨-, hfit, -, hc⟩ := hcase
  · omega
  · omega

/-- A payload whose end is no `usize`: its length is at most ten below `2 ^ 64`. -/
def HugeField (data : Bytes) : Prop :=
  ∃ key keyLen length lenLen, decodeVarint data = .ok (key, keyLen) ∧ key.toNat % 8 = 2 ∧
    decodeVarint (data.drop keyLen) = .ok (length, lenLen) ∧ 2 ^ 64 ≤ lenLen + length.toNat

theorem decodeField_returns_iff {data : Bytes} (hlen : data.length < 2 ^ 63) :
    Returns (decodeField data) ↔ ¬ HugeField data := by
  rw [decodeField, Returns.bind_iff]
  constructor
  · rintro ⟨-, h⟩ ⟨key, keyLen, length, lenLen, hkey, h2, hval, hhuge⟩
    have hk := decodeVarint_len hkey
    have hret := h (key, keyLen) hkey
    simp only [range_drop hk.2.1, ok_bind, h2] at hret
    rw [if_neg (by decide), if_pos trivial, Returns.bind_iff] at hret
    have hadd := (Returns.bind_iff.1 (hret.2 (length, lenLen) hval)).1
    have hlt : lenLen + length.toNat < usizeSize := Returns.usizeAdd_iff.1 hadd
    unfold usizeSize at hlt
    omega
  · intro hno
    refine ⟨decodeVarint_returns data, fun ⟨key, keyLen⟩ hkey => ?_⟩
    have hk := decodeVarint_len hkey
    simp only [range_drop hk.2.1, ok_bind]
    have hdrop : (data.drop keyLen).length = data.length - keyLen := List.length_drop
    split
    · refine (decodeVarint_returns _).bind fun ⟨val, valLen⟩ hval => ?_
      have hv := decodeVarint_len hval
      simp only
      rw [usizeAdd_of_lt (by unfold usizeSize; omega)]
      exact Returns.ok _
    · split
      · rename_i h2
        refine (decodeVarint_returns _).bind fun ⟨length, lenLen⟩ hval => ?_
        have hv := decodeVarint_len hval
        have hlt : lenLen + length.toNat < usizeSize := by
          by_contra hge
          exact hno ⟨key, keyLen, length, lenLen, hkey, h2, hval, by unfold usizeSize at hge; omega⟩
        simp only [usizeAdd_of_lt hlt, ok_bind]
        split
        · exact Returns.err _
        · rename_i hfit
          rw [range_of_le (by omega) (by omega)]
          simp only [ok_bind]
          rw [usizeAdd_of_lt (by unfold usizeSize; omega)]
          exact Returns.ok _
      · exact Returns.err _

/-! ## All fields -/

/-- The fields of a buffer, one after the other. -/
inductive Parses : Bytes → List Field → Prop
  | nil : Parses [] []
  | cons {data : Bytes} {f : Field} {c : Nat} {fs : List Field} (field : decodeField data = .ok (f, c))
    (rest : Parses (data.drop c) fs) : Parses data (f :: fs)

/-- After some fields there is one whose payload has no end. -/
inductive Overflows : Bytes → Prop
  | here {data : Bytes} (huge : HugeField data) : Overflows data
  | later {data : Bytes} {f : Field} {c : Nat} (field : decodeField data = .ok (f, c))
    (rest : Overflows (data.drop c)) : Overflows data

theorem not_hugeField_nil : ¬ HugeField [] := by
  rintro ⟨key, keyLen, length, lenLen, h, -⟩
  cases h

theorem not_overflows_nil : ¬ Overflows [] := by
  intro h
  cases h with
  | here huge => exact not_hugeField_nil huge
  | later field => cases field

theorem decodeAllFieldsFrom_succ {data : Bytes} {fuel offset : Nat} (h : offset < data.length) :
    decodeAllFieldsFrom data (fuel + 1) offset = (do
      let (field, consumed) ← decodeField (data.drop offset)
      let fields ← decodeAllFieldsFrom data fuel (← usizeAdd offset consumed)
      return field :: fields) := by
  rw [decodeAllFieldsFrom, if_pos h, range_drop (Nat.le_of_lt h)]
  rfl

theorem decodeAllFieldsFrom_done {data : Bytes} {fuel offset : Nat} (h : data.length ≤ offset) :
    decodeAllFieldsFrom data fuel offset = .ok [] := by
  cases fuel with
  | zero => rw [decodeAllFieldsFrom, if_neg (by omega)]
  | succ fuel => rw [decodeAllFieldsFrom, if_neg (by omega)]

theorem decodeAllFieldsFrom_ok_iff {data : Bytes} (hlen : data.length < 2 ^ 63) :
    ∀ (fuel offset : Nat) (fs : List Field), data.length ≤ offset + fuel →
      (decodeAllFieldsFrom data fuel offset = .ok fs ↔ Parses (data.drop offset) fs) := by
  intro fuel
  induction fuel with
  | zero =>
    intro offset fs hfuel
    rw [decodeAllFieldsFrom_done (by omega), List.drop_of_length_le (by omega)]
    constructor
    · intro h
      cases h
      exact .nil
    · intro h
      cases h with
      | nil => rfl
      | cons field => cases field
  | succ fuel ih =>
    intro offset fs hfuel
    by_cases hoff : offset < data.length
    · have hdrop : (data.drop offset).length = data.length - offset := List.length_drop
      rw [decodeAllFieldsFrom_succ hoff]
      constructor
      · intro h
        obtain ⟨⟨f, c⟩, hf, h⟩ := bind_eq_ok h
        have hc := decodeField_consumed (by omega) hf
        simp only at h
        rw [usizeAdd_of_lt (by unfold usizeSize; omega), ok_bind] at h
        obtain ⟨fs', hfs, h⟩ := bind_eq_ok h
        cases h
        have hp := (ih (offset + c) fs' (by omega)).1 hfs
        rw [← List.drop_drop] at hp
        exact .cons hf hp
      · intro h
        cases hd : data.drop offset with
        | nil =>
          rw [hd] at hdrop
          simp only [List.length_nil] at hdrop
          omega
        | cons x xs =>
          rw [hd] at h
          cases h with
          | @cons _ f c fs field rest =>
            rw [← hd] at field rest
            have hc := decodeField_consumed (by omega) field
            rw [List.drop_drop] at rest
            rw [← hd, field]
            simp only [ok_bind]
            rw [usizeAdd_of_lt (by unfold usizeSize; omega), ok_bind,
              (ih (offset + c) fs (by omega)).2 rest]
            rfl
    · rw [decodeAllFieldsFrom_done (by omega), List.drop_of_length_le (by omega)]
      constructor
      · intro h
        cases h
        exact .nil
      · intro h
        cases h with
        | nil => rfl
        | cons field => cases field

/-- **The fields of a buffer.** -/
theorem decodeAllFields_ok_iff {data : Bytes} {fs : List Field} (hlen : data.length < 2 ^ 63) :
    decodeAllFields data = .ok fs ↔ Parses data fs :=
  decodeAllFieldsFrom_ok_iff hlen data.length 0 fs (by omega)

theorem decodeAllFieldsFrom_returns_iff {data : Bytes} (hlen : data.length < 2 ^ 63) :
    ∀ fuel offset : Nat, data.length ≤ offset + fuel →
      (Returns (decodeAllFieldsFrom data fuel offset) ↔ ¬ Overflows (data.drop offset)) := by
  intro fuel
  induction fuel with
  | zero =>
    intro offset hfuel
    rw [decodeAllFieldsFrom_done (by omega), List.drop_of_length_le (by omega)]
    exact iff_of_true (Returns.ok _) not_overflows_nil
  | succ fuel ih =>
    intro offset hfuel
    by_cases hoff : offset < data.length
    · have hdrop : (data.drop offset).length = data.length - offset := List.length_drop
      have hnext : ∀ f c, decodeField (data.drop offset) = .ok (f, c) →
          (Returns (do
            let fields ← decodeAllFieldsFrom data fuel (← usizeAdd offset c)
            return f :: fields) ↔ ¬ Overflows ((data.drop offset).drop c)) := by
        intro f c hf
        have hc := decodeField_consumed (by omega) hf
        rw [usizeAdd_of_lt (by unfold usizeSize; omega), ok_bind, List.drop_drop,
          ← ih (offset + c) (by omega), Returns.bind_iff]
        exact and_iff_left fun _ _ => Returns.ok _
      rw [decodeAllFieldsFrom_succ hoff, Returns.bind_iff,
        decodeField_returns_iff (by omega)]
      constructor
      · rintro ⟨hno, hrest⟩ hover
        cases hover with
        | here huge => exact hno huge
        | later field rest => exact (hnext _ _ field).1 (hrest _ field) rest
      · intro hover
        exact ⟨fun huge => hover (.here huge), fun ⟨f, c⟩ hf =>
          (hnext f c hf).2 fun rest => hover (.later hf rest)⟩
    · rw [decodeAllFieldsFrom_done (by omega), List.drop_of_length_le (by omega)]
      exact iff_of_true (Returns.ok _) not_overflows_nil

/-- Reading the fields ends, without a panic unless a payload has no end. -/
theorem decodeAllFields_returns_iff {data : Bytes} (hlen : data.length < 2 ^ 63) :
    Returns (decodeAllFields data) ↔ ¬ Overflows data :=
  decodeAllFieldsFrom_returns_iff hlen data.length 0 (by omega)

end Discv5
