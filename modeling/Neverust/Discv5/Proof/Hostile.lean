import Neverust.Discv5.Proof.RoundTrip

/-!
# The decoder on hostile bytes

* `messageBuffers`, `sprBuffers`: the buffers a message and a signed peer record lead the decoder
  to. It returns exactly if none of them has a field whose payload ends beyond a `usize`.
* `decodeVarint_exact_iff`: a varint has the number that is returned unless its tenth byte has more
  than one bit.
* `decodeAllFields_exact_iff`: the fields are the ones in the buffer exactly if no number leaves
  64 bits and no field number leaves 32.
-/

namespace Discv5

open Multiformats Rust

variable {E : Type}

/-! ## Numbers that are too wide -/

/-- `b` is a varint of `n`. -/
def Denotes (b : Bytes) (n : Nat) : Prop := readVarint b = some (n, [])

/-- Nine bytes that go on, and a tenth one with more than the lowest bit. -/
def WideVarint (data : Bytes) : Prop :=
  10 ≤ data.length ∧ (∀ x ∈ data.take 9, 128 ≤ x.toNat) ∧ 1 < (data.getD 9 0).toNat

/-- The bytes of a number: its last seven bits stand in the last one. -/
theorem readVarint_split {b rest : Bytes} {n : Nat} (h : readVarint b = some (n, rest)) :
    ∃ pre last low, b = pre ++ last :: rest ∧ (∀ x ∈ pre, 128 ≤ x.toNat) ∧ last.toNat < 128 ∧
      low < 2 ^ (7 * pre.length) ∧ n = low + last.toNat * 2 ^ (7 * pre.length) := by
  induction b generalizing n with
  | nil => cases h
  | cons x b ih =>
    rw [readVarint] at h
    split at h
    · rename_i hx
      cases h
      exact ⟨[], x, 0, rfl, by simp, hx, by simp, by simp⟩
    · rename_i hx
      cases hr : readVarint b with
      | none =>
        rw [hr] at h
        cases h
      | some p =>
        obtain ⟨m, r⟩ := p
        rw [hr] at h
        cases h
        obtain ⟨pre, last, low, rfl, hpre, hlast, hlow, rfl⟩ := ih hr
        have hpow : 2 ^ (7 * (x :: pre).length) = 128 * 2 ^ (7 * pre.length) := by
          rw [List.length_cons, show 7 * (pre.length + 1) = 7 + 7 * pre.length by omega, Nat.pow_add]
        refine ⟨x :: pre, last, x.toNat % 128 + 128 * low, rfl, ?_, hlast, ?_, ?_⟩
        · intro y hy
          obtain rfl | hy := List.mem_cons.1 hy
          · omega
          · exact hpre y hy
        · rw [hpow]
          omega
        · rw [hpow]
          ring

/-- **A varint that is read has the number that is returned**, unless it is too wide. -/
theorem decodeVarint_exact_iff {data : Bytes} {v : UInt64} {k : Nat}
    (h : decodeVarint data = .ok (v, k)) :
    Denotes (data.take k) v.toNat ↔ ¬ WideVarint data := by
  obtain ⟨n, rest, hr, hk, hle, rfl⟩ := decodeVarint_ok_iff.1 h
  obtain ⟨x, bytes, hdata, hread⟩ := readVarint_eq_some hr
  obtain ⟨pre, last, low, hsplit, hpre, hlast, hlow, hn⟩ := readVarint_split hr
  have htake : data.take k = x :: bytes := by
    have hlen : (x :: bytes).length = k := by
      rw [hdata, List.length_append] at hk
      omega
    rw [hdata, ← hlen, List.take_left]
  have hpk : pre.length + 1 = k := by
    rw [hsplit, List.length_append, List.length_cons] at hk
    omega
  have hden : Denotes (data.take k) (UInt64.ofNat n).toNat ↔ n < 2 ^ 64 := by
    have hnil := hread []
    rw [List.append_nil] at hnil
    rw [Denotes, htake, hnil, UInt64.toNat_ofNat', Option.some.injEq, Prod.mk.injEq,
      and_iff_left rfl, eq_comm]
    exact Nat.mod_eq_iff_lt (by decide)
  rw [hden]
  by_cases hten : k = 10
  · have hp9 : pre.length = 9 := by omega
    have h9 : data.getD 9 0 = last := by
      rw [hsplit, List.getD_append_right _ _ _ _ (by omega), hp9]
      rfl
    have hfirst : data.take 9 = pre := by
      rw [hsplit, ← hp9, List.take_left]
    have hwide : WideVarint data ↔ 1 < last.toNat := by
      rw [WideVarint, h9, hfirst]
      exact ⟨fun h => h.2.2, fun h => ⟨by omega, hpre, h⟩⟩
    rw [hwide, hn, hp9]
    rw [hp9] at hlow
    omega
  · have hsmall : n < 2 ^ 64 := by
      have hpow : 2 ^ (7 * (pre.length + 1)) ≤ 2 ^ 63 :=
        Nat.pow_le_pow_right (by decide) (by omega)
      have hmul : last.toNat * 2 ^ (7 * pre.length) ≤ 127 * 2 ^ (7 * pre.length) :=
        Nat.mul_le_mul_right _ (by omega)
      rw [show 7 * (pre.length + 1) = 7 + 7 * pre.length by omega, Nat.pow_add] at hpow
      generalize 2 ^ (7 * pre.length) = p at hlow hn hpow hmul
      omega
    refine iff_of_true hsmall fun hwide => ?_
    have hmem : last ∈ data.take 9 := by
      rw [hsplit, List.take_append, List.take_of_length_le (by omega)]
      refine List.mem_append_right _ ?_
      obtain ⟨j, hj⟩ : ∃ j, 9 - pre.length = j + 1 := ⟨8 - pre.length, by omega⟩
      rw [hj, List.take_succ_cons]
      exact .head _
    have hge := hwide.2.1 last hmem
    omega

/-! ## Fields and their encodings -/

/-- `b` encodes the field: its key, and a number or a payload after its length. -/
inductive Encodes : Bytes → Field → Prop
  | varint {key val : Bytes} {num n : Nat} (hkey : Denotes key (8 * num)) (hval : Denotes val n) :
      Encodes (key ++ val) ⟨num, 0, encodeVarint n⟩
  | bytes {key len data : Bytes} {num : Nat} (hkey : Denotes key (8 * num + 2))
      (hlen : Denotes len data.length) : Encodes (key ++ (len ++ data)) ⟨num, 2, data⟩

/-- The buffer consists of encodings of the fields, one after the other. -/
def Exact (data : Bytes) (fs : List Field) : Prop :=
  ∃ pieces, data = pieces.flatten ∧ List.Forall₂ Encodes pieces fs

/-- The field at the start has a field number of 32 bits, and a value or a length of 64 bits. -/
def NarrowField (data : Bytes) : Prop :=
  ∃ n rest m rest', readVarint data = some (n, rest) ∧ n < 2 ^ 35 ∧
    readVarint rest = some (m, rest') ∧ m < 2 ^ 64

/-- All fields are of this kind. -/
inductive Narrow : Bytes → Prop
  | nil : Narrow []
  | cons {data : Bytes} {f : Field} {c : Nat} (field : decodeField data = .ok (f, c))
    (narrow : NarrowField data) (rest : Narrow (data.drop c)) : Narrow data

theorem Denotes.append {b : Bytes} {n : Nat} (h : Denotes b n) (rest : Bytes) :
    readVarint (b ++ rest) = some (n, rest) := by
  obtain ⟨x, bytes, hb, hread⟩ := readVarint_eq_some h
  rw [List.append_nil] at hb
  rw [hb]
  exact hread rest

theorem Denotes.of_readVarint {b rest : Bytes} {n : Nat} (h : readVarint b = some (n, rest)) :
    ∃ bytes, b = bytes ++ rest ∧ Denotes bytes n := by
  obtain ⟨x, bytes, hb, hread⟩ := readVarint_eq_some h
  have hnil := hread []
  rw [List.append_nil] at hnil
  exact ⟨x :: bytes, hb, hnil⟩

/-- A field that is read from narrow numbers is the one in the buffer. -/
theorem encodes_of_narrow {data : Bytes} {f : Field} {c : Nat} (hlen : data.length < 2 ^ 63)
    (h : decodeField data = .ok (f, c)) (hnarrow : NarrowField data) :
    Encodes (data.take c) f := by
  obtain ⟨n, rest, m, rest', hr, -, hr', -, hcase⟩ := (decodeField_ok_iff hlen).1 h
  obtain ⟨n₁, rest₁, m₁, rest₁', hr₁, hn, hr₁', hm⟩ := hnarrow
  rw [hr] at hr₁
  cases hr₁
  rw [hr'] at hr₁'
  cases hr₁'
  obtain ⟨key, rfl, hkey⟩ := Denotes.of_readVarint hr
  obtain ⟨val, rfl, hval⟩ := Denotes.of_readVarint hr'
  rw [Nat.mod_eq_of_lt hm, Nat.mod_eq_of_lt (show n / 8 < 2 ^ 32 by omega)] at hcase
  simp only [List.length_append] at hcase
  obtain ⟨h0, rfl, hc⟩ | ⟨h2, hfit, rfl, hc⟩ := hcase
  · have htake : (key ++ (val ++ rest')).take c = key ++ val := by
      rw [← List.append_assoc, show c = (key ++ val).length by rw [List.length_append]; omega,
        List.take_left]
    rw [htake]
    exact .varint (by rwa [show 8 * (n / 8) = n by omega]) hval
  · have htake : (key ++ (val ++ rest')).take c = key ++ (val ++ rest'.take m) := by
      rw [List.take_append, List.take_of_length_le (show key.length ≤ c by omega),
        List.take_append, List.take_of_length_le (show val.length ≤ c - key.length by omega),
        show c - key.length - val.length = m by omega]
    rw [htake]
    refine .bytes (by rwa [show 8 * (n / 8) + 2 = n by omega]) ?_
    rwa [List.length_take, Nat.min_eq_left hfit]

/-- The converse: the encoding of a field that is read tells the numbers. -/
theorem narrow_of_encodes {b rest : Bytes} {f : Field} {c : Nat}
    (hlen : (b ++ rest).length < 2 ^ 63) (h : decodeField (b ++ rest) = .ok (f, c))
    (hb : Encodes b f) : NarrowField (b ++ rest) ∧ c = b.length := by
  obtain ⟨n, r, m, r', hr, -, hr', -, hcase⟩ := (decodeField_ok_iff hlen).1 h
  cases hb with
  | @varint key val num v hkey hval =>
    rw [List.append_assoc] at hr hcase ⊢
    have hread := hkey.append (val ++ rest)
    rw [hr, Option.some.injEq, Prod.mk.injEq] at hread
    obtain ⟨rfl, rfl⟩ := hread
    have hread := hval.append rest
    rw [hr', Option.some.injEq, Prod.mk.injEq] at hread
    obtain ⟨rfl, rfl⟩ := hread
    simp only [List.length_append] at hcase ⊢
    obtain ⟨-, hf, hc⟩ | ⟨h2, -⟩ := hcase
    · rw [Field.mk.injEq] at hf
      have hm : m = m % 2 ^ 64 := by
        have hvarint := readVarint_varint m []
        rw [show varint m = varint (m % 2 ^ 64) from hf.2.2, readVarint_varint] at hvarint
        simpa using hvarint.symm
      exact ⟨⟨_, _, _, _, hr, by omega, hr', by omega⟩, by omega⟩
    · omega
  | @bytes key len data num hkey hl =>
    rw [List.append_assoc, List.append_assoc] at hr hcase ⊢
    have hread := hkey.append (len ++ (data ++ rest))
    rw [hr, Option.some.injEq, Prod.mk.injEq] at hread
    obtain ⟨rfl, rfl⟩ := hread
    have hread := hl.append (data ++ rest)
    rw [hr', Option.some.injEq, Prod.mk.injEq] at hread
    obtain ⟨rfl, rfl⟩ := hread
    simp only [List.length_append] at hcase hlen ⊢
    obtain ⟨h0, -⟩ | ⟨-, -, hf, hc⟩ := hcase
    · omega
    · rw [Field.mk.injEq] at hf
      exact ⟨⟨_, _, _, _, hr, by omega, hr', by omega⟩, by omega⟩

/-- **The fields are the ones in the buffer** exactly if no number is too wide. -/
theorem Parses.exact_iff {data : Bytes} {fs : List Field} (h : Parses data fs)
    (hlen : data.length < 2 ^ 63) : Exact data fs ↔ Narrow data := by
  induction h with
  | nil => exact iff_of_true ⟨[], rfl, .nil⟩ .nil
  | @cons data f c fs field rest ih =>
    have hdrop : (data.drop c).length ≤ data.length := by simp
    rw [show Narrow data ↔ NarrowField data ∧ Narrow (data.drop c) from ?_, ← ih (by omega)]
    · constructor
      · rintro ⟨pieces, rfl, hpieces⟩
        cases hpieces with
        | @cons p _ ps _ hp hps =>
          rw [List.flatten_cons] at hlen field ⊢
          obtain ⟨hnarrow, rfl⟩ := narrow_of_encodes hlen field hp
          exact ⟨hnarrow, ps, by rw [List.drop_left], hps⟩
      · rintro ⟨hnarrow, ps, hps, hall⟩
        refine ⟨data.take c :: ps, ?_, .cons (encodes_of_narrow hlen field hnarrow) hall⟩
        rw [List.flatten_cons, ← hps, List.take_append_drop]
    · constructor
      · intro h
        cases h with
        | nil => cases field
        | cons field' hnarrow hrest =>
          rw [field] at field'
          cases field'
          exact ⟨hnarrow, hrest⟩
      · exact fun h => .cons field h.1 h.2

/-! ## The buffers that are parsed -/

/-- A buffer, and the ones its fields lead to. -/
def parsed (data : Bytes) (next : List Field → List Bytes) : List Bytes :=
  data ::
    match decodeAllFields data with
    | .ok fields => next fields
    | .error _ => []

/-- The envelope, the public key, the peer record and its addresses. -/
def sprBuffers (sprBytes : Bytes) : List Bytes :=
  parsed sprBytes fun envelopeFields =>
    match lastTwo 1 3 envelopeFields with
    | (some pkProto, some payloadBytes) =>
      parsed pkProto fun pkFields =>
        match pkFields.foldlM keyStep (0, none) with
        | .ok (keyType, some _) =>
          if keyType = 2 then
            parsed payloadBytes fun prFields =>
              (prFields.filter fun f => f.fieldNum = 3 ∧ f.wireType = 2).map Field.data
          else []
        | _ => []
    | _ => []

/-- In a `Pong` the address, in a `Nodes` response the records that are no ENRs. -/
def bodyBuffers (enr : EnrCodec E) (msgType : UInt8) (fields : List Field) : List Bytes :=
  if msgType = 0x02 then (lastTwo 2 3 (delimited fields)).1.toList
  else if msgType = 0x04 then
    (fields.filter fun f => f.fieldNum = 2 ∧ f.wireType = 2 ∧ (enr.decode f.data).isNone).flatMap
      fun f => sprBuffers f.data
  else []

/-- The envelope, the body, and what the body leads to. -/
def messageBuffers (enr : EnrCodec E) (data : Bytes) : List Bytes :=
  if data.length < 3 then []
  else
    parsed (data.drop 1) fun fields =>
      match lastTwo 1 2 fields with
      | (some requestId, body) =>
        if requestId.length ≤ 8 then
          parsed (body.getD []) fun bodyFields => bodyBuffers enr (data.headD 0) bodyFields
        else []
      | (none, _) => []

theorem forall_mem_parsed {data : Bytes} {next : List Field → List Bytes} {P : Bytes → Prop} :
    (∀ b ∈ parsed data next, P b) ↔
      P data ∧ ∀ fs, decodeAllFields data = .ok fs → ∀ b ∈ next fs, P b := by
  rw [parsed, List.forall_mem_cons]
  cases decodeAllFields data with
  | ok fields => simp
  | error e => simp

/-! ## Calls that read a buffer -/

theorem toOption_returns_iff {α β : Type} {x : Result DecoderError α}
    {next : Option α → Result DecoderError β} (hnone : Returns (next none)) :
    Returns (toOption x >>= next) ↔ Returns x ∧ ∀ a, x = .ok a → Returns (next (some a)) := by
  rcases x with (e | p | _) | a
  · exact iff_of_true hnone ⟨trivial, fun a ha => nomatch ha⟩
  · exact iff_of_false id fun h => h.1
  · exact iff_of_false id fun h => h.1
  · refine ⟨fun h => ⟨trivial, fun b hb => ?_⟩, fun h => h.2 a rfl⟩
    cases hb
    exact h

/-- A call that returns gives a value, or the default. -/
theorem unwrapOr_ok {α : Type} {x : Result DecoderError α} (hx : Returns x) (a : α) :
    ∃ b, unwrapOr x a = .ok b := by
  rcases x with (e | p | _) | b
  · exact ⟨a, rfl⟩
  · exact absurd hx id
  · exact absurd hx id
  · exact ⟨b, rfl⟩

theorem varintValue_returns (data : Bytes) : Returns (varintValue data) :=
  (decodeVarint_returns data).bind fun _ _ => Returns.ok _

theorem Parses.length_data {data : Bytes} {fs : List Field} (h : Parses data fs)
    (hlen : data.length < 2 ^ 63) : ∀ f ∈ fs, f.data.length < 2 ^ 63 := by
  induction h with
  | nil => exact fun f hf => nomatch hf
  | @cons data f c fs field rest ih =>
    have hdrop : (data.drop c).length ≤ data.length := by simp
    rw [List.forall_mem_cons]
    refine ⟨?_, ih (by omega)⟩
    obtain ⟨n, r, m, r', hr, -, hr', -, hcase⟩ := (decodeField_ok_iff hlen).1 field
    have hl := length_readVarint hr
    have hl' := length_readVarint hr'
    obtain ⟨-, rfl, -⟩ | ⟨-, -, rfl, -⟩ := hcase
    · exact Nat.lt_of_le_of_lt (length_varint_le (Nat.mod_lt m (by decide))) (by decide)
    · rw [List.length_take]
      omega

/-- A field that holds a number reads as this number. -/
theorem Parses.varintValue {data : Bytes} {fs : List Field} (h : Parses data fs)
    (hlen : data.length < 2 ^ 63) :
    ∀ f ∈ fs, f.wireType = 0 → ∃ v, varintValue f.data = .ok v := by
  induction h with
  | nil => exact fun f hf => nomatch hf
  | @cons data f c fs field rest ih =>
    have hdrop : (data.drop c).length ≤ data.length := by simp
    rw [List.forall_mem_cons]
    refine ⟨fun h0 => ?_, ih (by omega)⟩
    obtain ⟨n, r, m, r', hr, -, hr', -, hcase⟩ := (decodeField_ok_iff hlen).1 field
    obtain ⟨-, rfl, -⟩ | ⟨-, -, rfl, -⟩ := hcase
    · exact ⟨_, varintValue_encodeVarint (Nat.mod_lt m (by decide))⟩
    · cases h0

/-- What all fields have the last two have. -/
theorem lastTwo_forall {m n : Nat} {fs : List Field} {P : Bytes → Prop}
    (h : ∀ f ∈ fs, P f.data) :
    (∀ a, (lastTwo m n fs).1 = some a → P a) ∧ ∀ a, (lastTwo m n fs).2 = some a → P a := by
  let motive (s : Option Bytes × Option Bytes) : Prop :=
    (∀ a, s.1 = some a → P a) ∧ ∀ a, s.2 = some a → P a
  have hnone : motive (none, none) := ⟨fun a ha => (nomatch ha), fun a ha => (nomatch ha)⟩
  show motive (fs.foldl (lastTwoStep m n) (none, none))
  refine List.foldlRecOn fs (lastTwoStep m n) hnone fun s hs f hf => ?_
  unfold lastTwoStep
  split
  · exact ⟨fun a ha => Option.some.inj ha ▸ h f hf, hs.2⟩
  · split
    · exact ⟨hs.1, fun a ha => Option.some.inj ha ▸ h f hf⟩
    · exact hs

/-! ## Signed peer records -/

theorem parseMultiaddr_ok (data : Bytes) : ∃ o, parseMultiaddr data = .ok o := by
  rw [parseMultiaddr]
  by_cases hlen : data.length < 7
  · rw [if_pos hlen]
    exact ⟨_, rfl⟩
  · rw [if_neg hlen]
    simp only [index_of_lt (show 0 < data.length by omega),
      index_of_lt (show 1 < data.length by omega), index_of_lt (show 2 < data.length by omega),
      index_of_lt (show 3 < data.length by omega), index_of_lt (show 4 < data.length by omega),
      index_of_lt (show 5 < data.length by omega), index_of_lt (show 6 < data.length by omega),
      ok_bind]
    split
    · exact ⟨_, rfl⟩
    · split
      · rename_i h9
        rw [index_of_lt (show 7 < data.length by omega), index_of_lt (show 8 < data.length by omega)]
        exact ⟨_, rfl⟩
      · split
        · rename_i h8
          rw [index_of_lt (show 7 < data.length by omega)]
          exact ⟨_, rfl⟩
        · exact ⟨_, rfl⟩

theorem addrStep_ok (r : PeerRecord) (f : Field) : ∃ r', r.addrStep f = .ok r' := by
  rw [PeerRecord.addrStep]
  split
  · obtain ⟨o, ho⟩ := parseMultiaddr_ok f.data
    rw [ho, ok_bind]
    cases o with
    | none => exact ⟨_, rfl⟩
    | some addr => exact ⟨_, rfl⟩
  · exact ⟨_, rfl⟩

/-- Only a field with addresses is parsed again. -/
theorem recordStep_ok {r : PeerRecord} {f : Field} (hlen : f.data.length < 2 ^ 63)
    (h : ¬ (f.fieldNum = 3 ∧ f.wireType = 2 ∧ Overflows f.data)) : ∃ r', r.step f = .ok r' := by
  rw [PeerRecord.step]
  split
  · obtain ⟨v, hv⟩ := unwrapOr_ok (varintValue_returns f.data) 0
    rw [hv]
    exact ⟨_, rfl⟩
  · split
    · rename_i haddr
      have hret : Returns (decodeAllFields f.data) :=
        (decodeAllFields_returns_iff hlen).2 fun hover => h ⟨haddr.1, haddr.2, hover⟩
      rcases hd : decodeAllFields f.data with (e | p | _) | addrFields
      · exact ⟨r, rfl⟩
      · rw [hd] at hret
        exact absurd hret id
      · rw [hd] at hret
        exact absurd hret id
      · exact foldlM_exists addrStep_ok addrFields r
    · exact ⟨r, rfl⟩

theorem recordStep_not_returns {r : PeerRecord} {f : Field} (hlen : f.data.length < 2 ^ 63)
    (h : f.fieldNum = 3 ∧ f.wireType = 2 ∧ Overflows f.data) : ¬ Returns (r.step f) := by
  obtain ⟨h3, h2, hover⟩ := h
  intro hret
  rw [PeerRecord.step, if_neg (by omega), if_pos ⟨h3, h2⟩, toOption_returns_iff] at hret
  · exact (decodeAllFields_returns_iff hlen).1 hret.1 hover
  · exact Returns.ok _

theorem keyStep_ok (s : UInt64 × Option Bytes) (f : Field) : ∃ s', keyStep s f = .ok s' := by
  rw [keyStep]
  split
  · obtain ⟨v, hv⟩ := unwrapOr_ok (varintValue_returns f.data) 0
    rw [hv]
    exact ⟨_, rfl⟩
  · split
    · exact ⟨_, rfl⟩
    · exact ⟨_, rfl⟩

/-- **A signed peer record is read without a panic** exactly if none of its buffers overflows. -/
theorem enrFromSprBytes_returns_iff (enr : EnrCodec E) {sprBytes : Bytes}
    (hlen : sprBytes.length < 2 ^ 63) :
    Returns (enrFromSprBytes enr sprBytes) ↔ ∀ b ∈ sprBuffers sprBytes, ¬ Overflows b := by
  rw [enrFromSprBytes, toOption_returns_iff]
  swap
  · exact Returns.ok _
  rw [decodeAllFields_returns_iff hlen, sprBuffers, forall_mem_parsed]
  refine and_congr Iff.rfl (forall_congr' fun fs => imp_congr_right fun hfs => ?_)
  have hparts := lastTwo_forall (m := 1) (n := 3) (P := fun b => b.length < 2 ^ 63)
    (((decodeAllFields_ok_iff hlen).1 hfs).length_data hlen)
  simp only
  rcases htwo : lastTwo 1 3 fs with ⟨_ | pkProto, _ | payloadBytes⟩
  · exact iff_of_true (Returns.ok _) (by simp)
  · exact iff_of_true (Returns.ok _) (by simp)
  · exact iff_of_true (Returns.ok _) (by simp)
  · rw [htwo] at hparts
    have hpk := hparts.1 pkProto rfl
    have hpayload := hparts.2 payloadBytes rfl
    simp only
    rw [toOption_returns_iff]
    swap
    · exact Returns.ok _
    rw [decodeAllFields_returns_iff hpk, forall_mem_parsed]
    refine and_congr Iff.rfl (forall_congr' fun pkFields => imp_congr_right fun _ => ?_)
    obtain ⟨⟨keyType, keyData⟩, hkey⟩ := foldlM_exists keyStep_ok pkFields (0, none)
    simp only [hkey, ok_bind]
    by_cases htype : keyType = 2
    · rw [if_neg (not_not_intro htype)]
      cases keyData with
      | none => exact iff_of_true (Returns.ok _) (by simp)
      | some secpKeyBytes =>
        simp only
        rw [if_pos htype, toOption_returns_iff]
        swap
        · exact Returns.ok _
        rw [decodeAllFields_returns_iff hpayload, forall_mem_parsed]
        refine and_congr Iff.rfl (forall_congr' fun prFields => imp_congr_right fun hpr => ?_)
        have hdata := ((decodeAllFields_ok_iff hpayload).1 hpr).length_data hpayload
        have hloop : Returns (prFields.foldlM PeerRecord.step ⟨0, none, none, none⟩) ↔
            ∀ f ∈ prFields, ¬ (f.fieldNum = 3 ∧ f.wireType = 2 ∧ Overflows f.data) :=
          Returns.foldlM_iff _ (fun _ f hf => recordStep_ok (hdata f hf)) fun _ f hf hno =>
            recordStep_not_returns (hdata f hf) (not_not.1 hno)
        simp only
        rw [Returns.bind_iff, hloop]
        constructor
        · rintro ⟨h, -⟩ b hb
          obtain ⟨f, hf, rfl⟩ := List.mem_map.1 hb
          obtain ⟨hmem, hkind⟩ := List.mem_filter.1 hf
          exact fun hover => h f hmem ⟨(of_decide_eq_true hkind).1, (of_decide_eq_true hkind).2, hover⟩
        · intro h
          refine ⟨fun f hf hbad => ?_, fun _ _ => Returns.ok _⟩
          exact h f.data (List.mem_map_of_mem (List.mem_filter.2
            ⟨hf, decide_eq_true ⟨hbad.1, hbad.2.1⟩⟩)) hbad.2.2
    · rw [if_pos htype]
      refine iff_of_true (Returns.ok _) ?_
      cases keyData with
      | none => simp
      | some secpKeyBytes => simp [htype]

/-- The call does not end with an error of its own. -/
def NoError {α : Type} (x : Result DecoderError α) : Prop := ∀ e, x ≠ .error (.err e)

namespace NoError

variable {α β : Type}

theorem of_ok {x : Result DecoderError α} (h : ∃ a, x = .ok a) : NoError x := by
  obtain ⟨a, rfl⟩ := h
  exact fun e he => nomatch he

theorem ok (a : α) : NoError (.ok a) := of_ok ⟨a, rfl⟩

theorem bind {x : Result DecoderError α} {next : α → Result DecoderError β} (hx : NoError x)
    (hnext : ∀ a, NoError (next a)) : NoError (x >>= next) := by
  intro e he
  obtain he | ⟨a, -, he⟩ := bind_eq_error he
  · exact hx e he
  · exact hnext a e he

theorem toOption (x : Result DecoderError α) : NoError (toOption x) := by
  rcases x with (e | p | _) | a
  · exact ok none
  · exact fun e he => nomatch he
  · exact fun e he => nomatch he
  · exact ok (some a)

theorem foldlM {f : β → α → Result DecoderError β} (h : ∀ b a, NoError (f b a)) :
    ∀ (l : List α) (b : β), NoError (l.foldlM f b)
  | [], b => ok b
  | a :: l, b => by
    rw [List.foldlM_cons]
    exact (h b a).bind fun c => foldlM h l c

theorem ok_of_returns {x : Result DecoderError α} (h : NoError x) (hx : Returns x) :
    ∃ a, x = .ok a := by
  rcases x with (e | p | _) | a
  · exact absurd rfl (h e)
  · exact absurd hx id
  · exact absurd hx id
  · exact ⟨a, rfl⟩

end NoError

theorem recordStep_noError (r : PeerRecord) (f : Field) : NoError (r.step f) := by
  rw [PeerRecord.step]
  split
  · exact (NoError.of_ok (unwrapOr_ok (varintValue_returns f.data) 0)).bind fun _ => NoError.ok _
  · split
    · refine (NoError.toOption _).bind fun o => ?_
      cases o with
      | none => exact NoError.ok r
      | some addrFields => exact NoError.of_ok (foldlM_exists addrStep_ok addrFields r)
    · exact NoError.ok r

/-- Errors inside a signed peer record only say that there is no record. -/
theorem enrFromSprBytes_noError (enr : EnrCodec E) (sprBytes : Bytes) :
    NoError (enrFromSprBytes enr sprBytes) := by
  rw [enrFromSprBytes]
  refine (NoError.toOption _).bind fun o => ?_
  cases o with
  | none => exact NoError.ok none
  | some envelopeFields =>
    simp only
    rcases lastTwo 1 3 envelopeFields with ⟨_ | pkProto, _ | payloadBytes⟩
    · exact NoError.ok none
    · exact NoError.ok none
    · exact NoError.ok none
    · refine (NoError.toOption _).bind fun o => ?_
      cases o with
      | none => exact NoError.ok none
      | some pkFields =>
        refine (NoError.of_ok (foldlM_exists keyStep_ok pkFields _)).bind fun ⟨keyType, keyData⟩ => ?_
        simp only
        split
        · exact NoError.ok none
        · cases keyData with
          | none => exact NoError.ok none
          | some secpKeyBytes =>
            refine (NoError.toOption _).bind fun o => ?_
            cases o with
            | none => exact NoError.ok none
            | some prFields =>
              exact (NoError.foldlM recordStep_noError prFields _).bind fun _ => NoError.ok _

/-! ## Bodies -/

theorem returns_map_iff {α β : Type} {x : Result DecoderError α} {next : α → Result DecoderError β}
    (h : ∀ a, Returns (next a)) : Returns (x >>= next) ↔ Returns x :=
  Returns.bind_iff.trans (and_iff_left fun a _ => h a)

theorem okOr_returns {α : Type} (o : Option α) (msg : String) : Returns (okOr o msg) := by
  cases o with
  | none => exact Returns.err _
  | some a => exact Returns.ok a

theorem lastVarint_ok {data : Bytes} {fs : List Field} (h : Parses data fs)
    (hlen : data.length < 2 ^ 63) : ∃ v, lastVarint fs = .ok v := by
  have hread := h.varintValue hlen
  have hloop : ∀ (fs : List Field) (v : UInt64),
      (∀ f ∈ fs, f.wireType = 0 → ∃ v, varintValue f.data = .ok v) →
      ∃ v', fs.foldlM varintStep v = .ok v' := by
    intro fs
    induction fs with
    | nil => exact fun v _ => ⟨v, rfl⟩
    | cons f fs ih =>
      intro v h
      rw [List.forall_mem_cons] at h
      obtain ⟨w, hw⟩ : ∃ w, varintStep v f = .ok w := by
        rw [varintStep]
        split
        · rename_i hf
          exact h.1 hf.2
        · exact ⟨v, rfl⟩
      rw [List.foldlM_cons, hw]
      exact ih w h.2
  exact hloop fs 0 hread

theorem decodeIpProto_returns_iff {data : Bytes} (hlen : data.length < 2 ^ 63) :
    Returns (decodeIpProto data) ↔ ¬ Overflows data := by
  rw [decodeIpProto, Returns.bind_iff, decodeAllFields_returns_iff hlen]
  refine and_iff_left fun fields _ => ?_
  have hstep : ∀ s f, Returns (ipStep s f) := by
    intro s f
    rw [ipStep]
    split
    · split
      · exact Returns.ok _
      · exact Returns.err _
    · split
      · exact Returns.ok _
      · exact Returns.ok _
  refine (Returns.foldlM _ fun s f _ => hstep s f).bind fun r _ => ?_
  obtain ⟨family, ipBytes⟩ := r
  refine (okOr_returns _ _).bind fun family _ => (okOr_returns _ _).bind fun ipBytes _ => ?_
  split
  · split
    · exact Returns.ok _
    · exact Returns.err _
  · split
    · split
      · simp only
        split
        · exact Returns.ok _
        · split
          · exact Returns.ok _
          · exact Returns.ok _
      · exact Returns.err _
    · exact Returns.err _

theorem decodePong_returns_iff {body : Bytes} {fs : List Field} (h : Parses body fs)
    (hlen : body.length < 2 ^ 63) :
    Returns (decodePong fs : Result DecoderError (ResponseBody E)) ↔
      ∀ b ∈ (lastTwo 2 3 (delimited fs)).1.toList, ¬ Overflows b := by
  obtain ⟨enrSeq, hseq⟩ := lastVarint_ok h hlen
  have hdelimited : ∀ f ∈ delimited fs, f.data.length < 2 ^ 63 := fun f hf =>
    h.length_data hlen f (List.mem_of_mem_filter hf)
  have hdata := (lastTwo_forall (m := 2) (n := 3) (P := fun b => b.length < 2 ^ 63) hdelimited).1
  rw [decodePong, hseq, ok_bind]
  rcases htwo : lastTwo 2 3 (delimited fs) with ⟨_ | ipData, portData⟩
  · exact iff_of_true (Returns.err _) (by simp)
  · rw [htwo] at hdata
    simp only [okOr, ok_bind, Option.toList_some, List.forall_mem_singleton]
    rw [Returns.bind_iff, decodeIpProto_returns_iff (hdata ipData rfl)]
    refine and_iff_left fun ip _ => (okOr_returns _ _).bind fun portBytes _ => ?_
    split
    · split
      · exact Returns.ok _
      · exact Returns.err _
    · exact Returns.err _

theorem decodeFindNode_returns (fs : List Field) : Returns (decodeFindNode fs) := by
  refine (Returns.foldlM _ fun ds f _ => ?_).bind fun _ _ => Returns.ok _
  rw [distanceStep]
  split
  · split
    · simp only
      split
      · exact Returns.err _
      · exact Returns.ok _
    · exact Returns.err _
  · exact Returns.ok _

theorem decodeNodes_returns_iff (enr : EnrCodec E) {body : Bytes} {fs : List Field}
    (h : Parses body fs) (hlen : body.length < 2 ^ 63) :
    Returns (decodeNodes enr fs) ↔ ∀ b ∈ (fs.filter fun f => f.fieldNum = 2 ∧ f.wireType = 2 ∧
      (enr.decode f.data).isNone).flatMap (fun f => sprBuffers f.data), ¬ Overflows b := by
  have hread := h.varintValue hlen
  have hdata := h.length_data hlen
  have hloop : Returns (fs.foldlM (nodesStep enr) (0, [])) ↔
      ∀ f ∈ fs, f.fieldNum = 2 ∧ f.wireType = 2 ∧ (enr.decode f.data).isNone →
        ∀ b ∈ sprBuffers f.data, ¬ Overflows b := by
    refine Returns.foldlM_iff _ (fun s f hf hC => ?_) fun s f hf hC hret => hC ?_
    · rw [nodesStep]
      split
      · rename_i h0
        obtain ⟨v, hv⟩ := hread f hf h0.2
        rw [hv]
        exact ⟨_, rfl⟩
      · split
        · rename_i h2
          rw [decodeNode]
          cases hd : enr.decode f.data with
          | some node => exact ⟨_, rfl⟩
          | none =>
            have hspr := (enrFromSprBytes_returns_iff enr (hdata f hf)).2
              (hC ⟨h2.1, h2.2, by rw [hd]; rfl⟩)
            obtain ⟨o, ho⟩ := (enrFromSprBytes_noError enr f.data).ok_of_returns hspr
            simp only [ho]
            exact ⟨_, rfl⟩
        · exact ⟨_, rfl⟩
    · rintro ⟨h2, htype, hnone⟩
      rw [nodesStep, if_neg (by omega), if_pos ⟨h2, htype⟩, decodeNode,
        Option.isNone_iff_eq_none.1 hnone, Returns.bind_iff] at hret
      exact (enrFromSprBytes_returns_iff enr (hdata f hf)).1 hret.1
  refine (returns_map_iff fun _ => ?_).trans (hloop.trans ?_)
  · exact Returns.ok _
  constructor
  · intro hall b hb
    obtain ⟨f, hf, hb⟩ := List.mem_flatMap.1 hb
    obtain ⟨hmem, hkind⟩ := List.mem_filter.1 hf
    exact hall f hmem (of_decide_eq_true hkind) b hb
  · exact fun hall f hf hkind b hb =>
      hall b (List.mem_flatMap.2 ⟨f, List.mem_filter.2 ⟨hf, decide_eq_true hkind⟩, hb⟩)

theorem decodeTwo_returns {α : Type} (o o' : Option Bytes) (msg msg' : String)
    (g : Bytes → Bytes → α) :
    Returns (do
      let a ← okOr o msg
      let b ← okOr o' msg'
      return g a b) :=
  (okOr_returns o msg).bind fun _ _ => (okOr_returns o' msg').bind fun _ _ => Returns.ok _

theorem decodeProviders_returns {body : Bytes} {fs : List Field} (h : Parses body fs)
    (hlen : body.length < 2 ^ 63) :
    Returns (decodeProviders fs : Result DecoderError (ResponseBody E)) := by
  refine (Returns.foldlM _ fun s f hf => ?_).bind fun _ _ => Returns.ok _
  rw [providersStep]
  split
  · rename_i h0
    obtain ⟨v, hv⟩ := h.varintValue hlen f hf h0.2
    rw [hv]
    exact Returns.ok _
  · split
    · exact Returns.ok _
    · exact Returns.ok _

/-- The body of a message. -/
theorem decodeBody_returns_iff (enr : EnrCodec E) {msgType : UInt8} {id : RequestId} {body : Bytes}
    {fs : List Field} (h : Parses body fs) (hlen : body.length < 2 ^ 63) :
    Returns (decodeBody enr msgType id fs) ↔ ∀ b ∈ bodyBuffers enr msgType fs, ¬ Overflows b := by
  by_cases h2 : msgType = 0x02
  · subst h2
    show Returns (do return Message.response ⟨id, ← decodePong fs⟩) ↔ _
    refine (returns_map_iff fun _ => ?_).trans (decodePong_returns_iff h hlen)
    exact Returns.ok _
  · by_cases h4 : msgType = 0x04
    · subst h4
      show Returns (do return Message.response ⟨id, ← decodeNodes enr fs⟩) ↔ _
      refine (returns_map_iff fun _ => ?_).trans (decodeNodes_returns_iff enr h hlen)
      exact Returns.ok _
    · rw [bodyBuffers, if_neg h2, if_neg h4, decodeBody, if_neg h2, if_neg h4]
      refine iff_of_true ?_ (by simp)
      obtain ⟨enrSeq, hseq⟩ := lastVarint_ok h hlen
      rw [hseq]
      split
      · exact Returns.ok _
      split
      · exact (decodeFindNode_returns fs).bind fun _ _ => Returns.ok _
      split
      · exact (decodeTwo_returns _ _ _ _ _).bind fun _ _ => Returns.ok _
      split
      · exact Returns.ok _
      split
      · exact (decodeTwo_returns _ _ _ _ _).bind fun _ _ => Returns.ok _
      split
      · exact ((okOr_returns _ _).bind fun _ _ => Returns.ok _).bind fun _ _ => Returns.ok _
      split
      · exact (decodeProviders_returns h hlen).bind fun _ _ => Returns.ok _
      · exact Returns.err _

/-- **A message is decoded without a panic** exactly if none of its buffers overflows. -/
theorem decode_returns_iff (enr : EnrCodec E) {data : Bytes} (hlen : data.length < 2 ^ 63) :
    Returns (Message.decode enr data) ↔ ∀ b ∈ messageBuffers enr data, ¬ Overflows b := by
  rw [Message.decode, messageBuffers]
  split
  · exact iff_of_true (Returns.err _) (by simp)
  · rename_i hthree
    have hrest : (data.drop 1).length < 2 ^ 63 := by
      rw [List.length_drop]
      omega
    have hhead (h : 0 < data.length) : data[0] = data.headD 0 := by
      cases data with
      | nil => simp at h
      | cons x data => rfl
    rw [index_of_lt (by omega), ok_bind, range_drop (by omega), ok_bind, decodeEnvelope, hhead,
      forall_mem_parsed, bind_assoc, Returns.bind_iff, decodeAllFields_returns_iff hrest]
    refine and_congr Iff.rfl (forall_congr' fun fs => imp_congr_right fun hfs => ?_)
    have hparts := lastTwo_forall (m := 1) (n := 2) (P := fun b => b.length < 2 ^ 63)
      (((decodeAllFields_ok_iff hrest).1 hfs).length_data hrest)
    rcases htwo : lastTwo 1 2 fs with ⟨_ | requestId, body⟩
    · exact iff_of_true (Returns.err _) (by simp)
    · rw [htwo] at hparts
      have hbody : (body.getD []).length < 2 ^ 63 := by
        cases body with
        | none => simp
        | some b => exact hparts.2 b rfl
      simp only [okOr, ok_bind, pure_eq_ok, RequestId.decode]
      by_cases hid : 8 < requestId.length
      · rw [if_pos hid, if_neg (by omega)]
        exact iff_of_true (Returns.err _) (by simp)
      · rw [if_neg hid, if_pos (by omega), ok_bind, forall_mem_parsed, decodeBodyFields,
          Returns.bind_iff, decodeAllFields_returns_iff hbody]
        refine and_congr Iff.rfl (forall_congr' fun bodyFields => imp_congr_right fun hb => ?_)
        exact decodeBody_returns_iff enr ((decodeAllFields_ok_iff hbody).1 hb) hbody

/-! ## All of it -/

/-- **The decoder on hostile bytes.** It returns exactly if no buffer it comes to has a payload that
ends beyond a `usize`; a varint denotes what it is read as unless it is too wide; and the fields
that are read are the ones in the buffer exactly if their numbers are not too wide. -/
theorem decoder_exact (enr : EnrCodec E) (data : Bytes) (hlen : data.length < 2 ^ 63) :
    (Returns (Message.decode enr data) ↔ ∀ b ∈ messageBuffers enr data, ¬ Overflows b) ∧
    (Returns (enrFromSprBytes enr data) ↔ ∀ b ∈ sprBuffers data, ¬ Overflows b) ∧
    (∀ v k, decodeVarint data = .ok (v, k) →
      (Denotes (data.take k) v.toNat ↔ ¬ WideVarint data)) ∧
    ∀ fs, decodeAllFields data = .ok fs → (Exact data fs ↔ Narrow data) :=
  ⟨decode_returns_iff enr hlen, enrFromSprBytes_returns_iff enr hlen,
    fun _ _ h => decodeVarint_exact_iff h,
    fun _ h => ((decodeAllFields_ok_iff hlen).1 h).exact_iff hlen⟩

/-- The empty request id in the envelope, and no body. -/
theorem decoder_exact_short : Returns (Message.decode sampleCodec [0x06, 0x0A, 0x00]) := by
  refine (decoder_exact sampleCodec [0x06, 0x0A, 0x00] (by decide)).1.2 ?_
  have hbuffers : messageBuffers sampleCodec [0x06, 0x0A, 0x00] = [[0x0A, 0x00], []] := by
    decide +kernel
  rw [hbuffers, List.forall_mem_cons, List.forall_mem_singleton]
  refine ⟨fun hover => ?_, not_overflows_nil⟩
  have hret : Returns (decodeAllFields [0x0A, 0x00]) := by
    have hfields : decodeAllFields [0x0A, 0x00] = .ok [⟨1, 2, []⟩] := by rfl
    rw [hfields]
    exact Returns.ok _
  exact (decodeAllFields_returns_iff (by decide)).1 hret hover

/-- A length of `2 ^ 64 - 1` in the envelope. -/
def hugeLength : Bytes :=
  [0x01, 0x0A, 0xff, 0xff, 0xff, 0xff, 0xff, 0xff, 0xff, 0xff, 0xff, 0x01]

theorem decode_hugeLength : ¬ Returns (Message.decode sampleCodec hugeLength) := by
  have hdecode : Message.decode sampleCodec hugeLength = .error (.panic .overflow) := by rfl
  rw [hdecode]
  exact Returns.not_panic _

end Discv5
