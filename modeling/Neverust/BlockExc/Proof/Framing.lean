import Neverust.BlockExc.Framing
import Neverust.Lib.Multiformats
import Mathlib.Tactic.Ring

/-!
# Frames read back

* `readLength_eq`: the loop over the bytes of a length, told by the value of the varint: at most ten
  bytes, and the value modulo `2 ^ 64`.
* `frames_read_back`: messages that were written are read, and nothing is left.
* `length_exact_iff`: when the length that is read is the value of the varint.
-/

namespace BlockExc

open Rust Multiformats

/-! ## The loop over a length -/

/-- A group of seven bits is put over the bits read so far; what leaves 64 bits is lost. -/
theorem push_group {k : Nat} (hk : k ≤ 9) {acc : UInt64} (hacc : acc.toNat < 2 ^ (7 * k))
    (x : UInt8) :
    (acc ||| ((x &&& 0x7F).toUInt64 <<< UInt64.ofNat (7 * k))).toNat =
      (acc.toNat + x.toNat % 128 * 2 ^ (7 * k)) % 2 ^ 64 := by
  have hshift : (UInt64.ofNat (7 * k)).toNat % 64 = 7 * k := by
    rw [UInt64.toNat_ofNat_of_lt' (show 7 * k < 2 ^ 64 by omega)]
    omega
  have hsplit : (2 : Nat) ^ 64 = 2 ^ (7 * k) * 2 ^ (64 - 7 * k) := by
    rw [← Nat.pow_add]
    congr 1
    omega
  rw [UInt64.toNat_or, UInt64.toNat_shiftLeft, UInt8.toNat_toUInt64, toNat_lowBits, hshift,
    Nat.shiftLeft_eq, hsplit, Nat.mul_comm (x.toNat % 128), Nat.mul_mod_mul_left, Nat.or_comm,
    ← Nat.two_pow_add_eq_or_of_lt hacc, Nat.add_comm acc.toNat, Nat.mod_mul,
    Nat.mul_add_mod, Nat.mod_eq_of_lt hacc, Nat.mul_add_div (Nat.two_pow_pos _),
    Nat.div_eq_of_lt hacc, Nat.add_zero, Nat.add_comm]

/-- The varint at the start of a stream and the number of its bytes. -/
theorem readVarint_length :
    ∀ {stream rest : Bytes} {v : Nat}, readVarint stream = some (v, rest) →
      rest.length < stream.length
  | x :: stream, rest, v, h => by
    rw [readVarint] at h
    split at h
    · cases h
      exact Nat.lt_succ_self _
    · cases hr : readVarint stream with
      | none =>
        rw [hr] at h
        cases h
      | some r =>
        rw [hr] at h
        cases h
        exact Nat.lt_succ_of_lt (readVarint_length hr)

theorem readVarint_more {x : UInt8} (hx : ¬ x.toNat < 128) {stream rest : Bytes} {v : Nat} :
    readVarint (x :: stream) = some (v, rest) ↔
      ∃ v', readVarint stream = some (v', rest) ∧ v = x.toNat % 128 + 128 * v' := by
  rw [readVarint, if_neg hx]
  cases readVarint stream with
  | none => simp
  | some r =>
    obtain ⟨v', rest'⟩ := r
    simp only [Option.some.injEq, Prod.mk.injEq]
    constructor
    · rintro ⟨rfl, rfl⟩
      exact ⟨v', ⟨rfl, rfl⟩, rfl⟩
    · rintro ⟨w, ⟨rfl, rfl⟩, rfl⟩
      exact ⟨rfl, rfl⟩

/-- **The loop**: a varint that ends within the bytes that are left to ten is read, modulo `2 ^ 64`;
any other stream is refused. -/
theorem readLength_eq :
    ∀ (stream : Bytes) {k : Nat} {acc : UInt64}, k ≤ 9 → acc.toNat < 2 ^ (7 * k) →
      (∀ v rest, readVarint stream = some (v, rest) → stream.length ≤ rest.length + (10 - k) →
        ∃ n, readLength acc (7 * k) stream = .ok (n, rest) ∧
          n.toNat = (acc.toNat + v * 2 ^ (7 * k)) % 2 ^ 64) ∧
      ((∀ v rest, readVarint stream = some (v, rest) → rest.length + (10 - k) < stream.length) →
        ∃ e, readLength acc (7 * k) stream = .error (.err e))
  | [], k, acc, _, _ => ⟨fun v rest h => (nomatch h), fun _ => ⟨_, rfl⟩⟩
  | x :: stream, k, acc, hk, hacc => by
    have hpush := push_group hk hacc x
    by_cases hlast : x.toNat < 128
    · have hread : readVarint (x :: stream) = some (x.toNat, stream) := by
        rw [readVarint, if_pos hlast]
      refine ⟨fun v rest h _ => ?_, fun h => ?_⟩
      · cases hread.symm.trans h
        refine ⟨_, by rw [readLength, if_pos ((highBit_eq_zero x).2 hlast)], ?_⟩
        rw [hpush, Nat.mod_eq_of_lt hlast]
      · have := h _ _ hread
        rw [List.length_cons] at this
        omega
    · have hmore : ¬ x &&& 0x80 = 0 := fun h => hlast ((highBit_eq_zero x).1 h)
      by_cases hk9 : k = 9
      · have hstop : readLength acc (7 * k) (x :: stream) = .error (.err .varintTooLong) := by
          rw [readLength, if_neg hmore, if_pos (by omega)]
        refine ⟨fun v rest h hlen => ?_, fun _ => ⟨_, hstop⟩⟩
        obtain ⟨v', hr, -⟩ := (readVarint_more hlast).1 h
        have := readVarint_length hr
        rw [List.length_cons] at hlen
        omega
      · have hpow : (2 : Nat) ^ (7 * (k + 1)) = 128 * 2 ^ (7 * k) := by
          rw [Nat.mul_add, Nat.pow_add, Nat.mul_comm]
        have hbound : acc.toNat + x.toNat % 128 * 2 ^ (7 * k) < 2 ^ (7 * (k + 1)) := by
          have := Nat.mul_le_mul_right (2 ^ (7 * k)) (show x.toNat % 128 ≤ 127 by omega)
          omega
        have h63 : (2 : Nat) ^ (7 * (k + 1)) ≤ 2 ^ 63 :=
          Nat.pow_le_pow_right (by decide) (by omega)
        rw [Nat.mod_eq_of_lt (by omega)] at hpush
        have hnext := readLength_eq stream (show k + 1 ≤ 9 by omega) (hpush ▸ hbound)
        rw [readLength, if_neg hmore, if_neg (by omega)]
        refine ⟨fun v rest h hlen => ?_, fun h => ?_⟩
        · obtain ⟨v', hr, rfl⟩ := (readVarint_more hlast).1 h
          rw [List.length_cons] at hlen
          obtain ⟨n, hn, hval⟩ := hnext.1 v' rest hr (by omega)
          refine ⟨n, hn, ?_⟩
          rw [hval, hpush, hpow]
          congr 1
          ring
        · refine hnext.2 fun v' rest' hr => ?_
          have := h _ _ ((readVarint_more hlast).2 ⟨v', hr, rfl⟩)
          rw [List.length_cons] at this
          omega

/-- The length of the next message, from its varint. -/
theorem acceptLength_eq {maxSize v : Nat} {stream rest : Bytes}
    (h : readVarint stream = some (v, rest)) (hlen : stream.length ≤ rest.length + 10) :
    acceptLength maxSize stream =
      if maxSize < v % 2 ^ 64 then .error (.err (.messageTooLarge (v % 2 ^ 64) maxSize))
      else .ok (v % 2 ^ 64, rest) := by
  obtain ⟨n, hn, hval⟩ := (readLength_eq stream (show 0 ≤ 9 by omega)
    (show (0 : UInt64).toNat < 2 ^ (7 * 0) by decide)).1 v rest h hlen
  have hval : n.toNat = v % 2 ^ 64 := by
    rw [hval]
    congr 1
    show 0 + v * 1 = v
    omega
  unfold acceptLength
  rw [show readLength 0 0 stream = .ok (n, rest) from hn, ok_bind]
  dsimp only
  rw [hval]
  rfl

/-- A stream without a varint of at most ten bytes is refused. -/
theorem acceptLength_error {maxSize : Nat} {stream : Bytes}
    (h : ∀ v rest, readVarint stream = some (v, rest) → rest.length + 10 < stream.length) :
    ∃ e, acceptLength maxSize stream = .error (.err e) := by
  obtain ⟨e, he⟩ := (readLength_eq stream (show 0 ≤ 9 by omega)
    (show (0 : UInt64).toNat < 2 ^ (7 * 0) by decide)).2 h
  refine ⟨e, ?_⟩
  unfold acceptLength
  rw [show readLength 0 0 stream = .error (.err e) from he, error_bind]

/-! ## Reading what was written -/

theorem writeLengthFrom_eq (fuel n : Nat) : writeLengthFrom fuel n = varintFrom fuel n := by
  induction fuel generalizing n with
  | zero => rfl
  | succ fuel ih =>
    have hbyte : UInt8.ofNat n ||| 0x80 = UInt8.ofNat (128 + n % 128) := by
      have h : ∀ m < 256, UInt8.ofNat m ||| 0x80 = UInt8.ofNat (128 + m % 128) := by
        decide +kernel
      have hmod : UInt8.ofNat n = UInt8.ofNat (n % 256) := by
        rw [← UInt8.toNat_inj, UInt8.toNat_ofNat', UInt8.toNat_ofNat', Nat.mod_mod]
      rw [hmod, h _ (Nat.mod_lt _ (by decide)), show n % 256 % 128 = n % 128 by omega]
    rw [writeLengthFrom, varintFrom, ih, hbyte, Nat.shiftRight_eq_div_pow]
    by_cases hn : 128 ≤ n
    · rw [if_pos hn, if_neg (by omega)]
    · rw [if_neg hn, if_pos (by omega)]

theorem length_varintFrom :
    ∀ (j fuel : Nat) {n : Nat}, n < 128 ^ (j + 1) → (varintFrom fuel n).length ≤ j + 1
  | j, 0, n, _ => Nat.succ_le_succ (Nat.zero_le j)
  | 0, fuel + 1, n, h => by
    rw [varintFrom, if_pos (by omega)]
    exact Nat.le_refl 1
  | j + 1, fuel + 1, n, h => by
    rw [varintFrom]
    split
    · exact Nat.succ_le_succ (Nat.zero_le _)
    · have hdiv : n / 128 < 128 ^ (j + 1) := by
        rw [Nat.div_lt_iff_lt_mul (by decide), ← Nat.pow_succ]
        exact h
      exact Nat.succ_le_succ (length_varintFrom j fuel hdiv)

/-- The values of `Vec<u8>`. -/
abbrev Buffer := { data : Bytes // data.length < isizeSize }

theorem acceptLength_write (maxSize : Nat) (data : Buffer) (rest : Bytes) :
    acceptLength maxSize (writeLengthPrefixed data.1 ++ rest) =
      if maxSize < data.1.length then .error (.err (.messageTooLarge data.1.length maxSize))
      else .ok (data.1.length, data.1 ++ rest) := by
  have hlt : data.1.length < 2 ^ 64 := Nat.lt_trans data.2 (by decide)
  have hread : readVarint (writeLengthPrefixed data.1 ++ rest) =
      some (data.1.length, data.1 ++ rest) := by
    rw [writeLengthPrefixed, writeLengthFrom_eq, List.append_assoc]
    exact readVarint_varint _ _
  rw [acceptLength_eq hread, Nat.mod_eq_of_lt hlt]
  have := length_varintFrom 9 data.1.length (Nat.lt_trans hlt (by decide))
  rw [writeLengthPrefixed, writeLengthFrom_eq, List.append_assoc, List.length_append]
  omega

/-- A message that fits is read. -/
theorem readLengthPrefixed_write {maxSize : Nat} {data : Buffer} (hsize : data.1.length ≤ maxSize)
    (rest : Bytes) :
    readLengthPrefixed maxSize (writeLengthPrefixed data.1 ++ rest) = .ok (data.1, rest) := by
  rw [readLengthPrefixed, acceptLength_write, if_neg (Nat.not_lt_of_le hsize), ok_bind]
  show (do withCapacity data.1.length; readExact data.1.length (data.1 ++ rest)) = _
  rw [withCapacity_of_lt data.2, ok_bind, readExact, if_pos (by simp), List.take_left,
    List.drop_left]

theorem readMessages_write {maxSize : Nat} :
    ∀ (messages : List Buffer) (fuel : Nat), messages.length < fuel →
      (∀ data ∈ messages, data.1.length ≤ maxSize) →
      readMessages maxSize fuel (messages.flatMap fun data => writeLengthPrefixed data.1) =
        (messages.map Subtype.val, [])
  | [], 0, h, _ => absurd h (Nat.lt_irrefl 0)
  | [], fuel + 1, _, _ => rfl
  | data :: messages, 0, h, _ => absurd h (Nat.not_lt_zero _)
  | data :: messages, fuel + 1, h, hsize => by
    have hrest := readMessages_write messages fuel (Nat.lt_of_succ_lt_succ h) fun d hd =>
      hsize d (List.mem_cons_of_mem data hd)
    rw [List.flatMap_cons, readMessages, readLengthPrefixed_write (hsize data List.mem_cons_self)]
    dsimp only
    rw [hrest]
    rfl

theorem length_le_flatMap_write :
    ∀ messages : List Buffer,
      messages.length ≤ (messages.flatMap fun data => writeLengthPrefixed data.1).length
  | [] => Nat.le_refl _
  | data :: messages => by
    have ih := length_le_flatMap_write messages
    have hpos : 0 < (writeLengthPrefixed data.1).length := by
      rw [writeLengthPrefixed, writeLengthFrom_eq, List.length_append]
      have := List.length_pos_iff.2 (varint_ne_nil data.1.length)
      exact Nat.lt_of_lt_of_le this (Nat.le_add_right _ _)
    rw [List.flatMap_cons, List.length_append, List.length_cons]
    omega

/-- **Frames read back**: messages that are not too long are read as they were written, and all
their bytes are used; a longer one is refused. -/
theorem frames_read_back (maxSize : Nat) :
    (∀ messages : List Buffer, (∀ data ∈ messages, data.1.length ≤ maxSize) →
      let stream := messages.flatMap fun data => writeLengthPrefixed data.1
      readMessages maxSize (stream.length + 1) stream = (messages.map Subtype.val, [])) ∧
    ∀ (data : Buffer) (rest : Bytes), maxSize < data.1.length →
      readLengthPrefixed maxSize (writeLengthPrefixed data.1 ++ rest) =
        .error (.err (.messageTooLarge data.1.length maxSize)) := by
  refine ⟨fun messages hsize => ?_, fun data rest hlong => ?_⟩
  · exact readMessages_write messages _ (Nat.lt_succ_of_le (length_le_flatMap_write messages)) hsize
  · rw [readLengthPrefixed, acceptLength_write, if_pos hlong, error_bind]

theorem frames_read_back_sample :
    readMessages 2 6 [0, 2, 7, 8, 0] = ([[], [7, 8], []], []) :=
  (frames_read_back 2).1 [⟨[], by decide⟩, ⟨[7, 8], by decide⟩, ⟨[], by decide⟩] (by decide)

/-! ## The value of a length -/

/-- The length that is accepted is the value of the varint, the data that is read has that length,
and a value that is too large is refused. -/
structure ReadsExactly (maxSize : Nat) (stream : Bytes) : Prop where
  accepted : ∀ n rest, acceptLength maxSize stream = .ok (n, rest) →
    readVarint stream = some (n, rest)
  read : ∀ data rest, readLengthPrefixed maxSize stream = .ok (data, rest) →
    readVarint stream = some (data.length, data ++ rest)
  refused : ∀ v rest, readVarint stream = some (v, rest) → maxSize < v →
    ∃ e, acceptLength maxSize stream = .error (.err e)

/-- The data that is read is what follows the length. -/
theorem readLengthPrefixed_ok {maxSize : Nat} {stream data rest : Bytes}
    (h : readLengthPrefixed maxSize stream = .ok (data, rest)) :
    acceptLength maxSize stream = .ok (data.length, data ++ rest) := by
  unfold readLengthPrefixed at h
  obtain ⟨⟨n, stream'⟩, haccept, h⟩ := bind_eq_ok h
  obtain ⟨-, -, h⟩ := bind_eq_ok h
  unfold readExact at h
  split at h
  · rename_i hle
    obtain ⟨hdata, hrest⟩ := Prod.mk.inj (Except.ok.inj h)
    rw [haccept, ← hdata, ← hrest, List.take_append_drop, List.length_take, Nat.min_eq_left hle]
  · cases h

/-- **When a length is read exactly**: when the value is below `2 ^ 64`, or what is left of it in 64
bits is refused too. -/
theorem length_exact_iff (maxSize : Nat) (stream : Bytes) :
    ReadsExactly maxSize stream ↔
      ∀ v rest, readVarint stream = some (v, rest) → stream.length ≤ rest.length + 10 →
        v < 2 ^ 64 ∨ maxSize < v % 2 ^ 64 := by
  constructor
  · intro h v rest hread hlen
    by_contra hbad
    have haccept := @acceptLength_eq maxSize v stream rest hread hlen
    rw [if_neg fun hlt => hbad (.inr hlt)] at haccept
    have hvalue := h.accepted _ _ haccept
    have heq : v = v % 2 ^ 64 := congrArg Prod.fst (Option.some.inj (hread.symm.trans hvalue))
    exact hbad (.inl (heq ▸ Nat.mod_lt _ (by decide)))
  · intro h
    by_cases hread : ∃ v rest, readVarint stream = some (v, rest) ∧
        stream.length ≤ rest.length + 10
    · obtain ⟨v, rest, hread, hlen⟩ := hread
      have haccept := @acceptLength_eq maxSize v stream rest hread hlen
      have hexact : ∀ n rest', acceptLength maxSize stream = .ok (n, rest') →
          readVarint stream = some (n, rest') := by
        intro n rest' hok
        rw [haccept] at hok
        split at hok
        · cases hok
        · rename_i hle
          cases hok
          rcases h v rest hread hlen with hlt | hlt
          · rw [Nat.mod_eq_of_lt hlt]
            exact hread
          · exact absurd hlt hle
      refine ⟨hexact, fun data rest' hok => hexact _ _ (readLengthPrefixed_ok hok),
        fun v' rest' hread' hlarge => ?_⟩
      cases hread.symm.trans hread'
      rcases h v rest hread hlen with hlt | hlt
      · rw [haccept, Nat.mod_eq_of_lt hlt, if_pos hlarge]
        exact ⟨_, rfl⟩
      · rw [haccept, if_pos hlt]
        exact ⟨_, rfl⟩
    · obtain ⟨e, he⟩ := @acceptLength_error maxSize stream fun v rest hv =>
        Nat.lt_of_not_le fun hlen => hread ⟨v, rest, hv, hlen⟩
      refine ⟨fun n rest hok => (nomatch he.symm.trans hok),
        fun data rest hok => (nomatch he.symm.trans (readLengthPrefixed_ok hok)),
        fun _ _ _ _ => ⟨e, he⟩⟩

/-- A varint of ten bytes whose value is `2 ^ 64 + 1`: one byte of data is read. -/
theorem length_truncated :
    ¬ ∀ (maxSize : Nat) (stream : Bytes), ReadsExactly maxSize stream := by
  intro h
  have hread := (h 1 [129, 128, 128, 128, 128, 128, 128, 128, 128, 2, 7]).accepted 1 [7] (by decide)
  exact absurd hread (by decide)

end BlockExc
