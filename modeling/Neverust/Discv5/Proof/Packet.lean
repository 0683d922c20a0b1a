import Neverust.Discv5.Packet

/-!
# The packet codec

* `PacketKind.decode_iff`: what is read as the data of a kind.
* `Packet.decode_exact`: a datagram is accepted as a packet if and only if it is the encoding of
  that packet for the receiver, and none makes the decoder panic.
-/

namespace Discv5

open Bytes Rust StreamCipher

variable {α ε : Type}

theorem range_prefix {a b : List α} {n : Nat} (h : a.length = n) :
    (range (a ++ b) 0 n : Result ε (List α)) = .ok a := by
  subst h
  rw [range_of_le (Nat.zero_le _) (by simp), List.take_left', List.drop_zero]
  rfl

theorem range_middle {a b c : List α} {m n : Nat} (hm : a.length = m) (hn : m + b.length = n) :
    (range (a ++ b ++ c) m n : Result ε (List α)) = .ok b := by
  subst hm hn
  rw [range_of_le (Nat.le_add_right ..) (by simp), List.append_assoc, List.take_append]
  simp

theorem range_suffix {a b : List α} {m n : Nat} (hm : a.length = m) (hn : m + b.length = n) :
    (range (a ++ b) m n : Result ε (List α)) = .ok b := by
  have := @range_middle α ε a b [] m n hm hn
  rwa [List.append_nil] at this

theorem expectArray_bytes {n : Nat} (b : Buffer n) : expectArray n b.bytes = .ok b := dif_pos b.len

theorem bytes_inj {n : Nat} {a b : Buffer n} : a.bytes = b.bytes ↔ a = b := by
  obtain ⟨a, ha⟩ := a
  obtain ⟨b, hb⟩ := b
  rw [Buffer.mk.injEq]

namespace NodeId

variable {nodeId : NodeId} {b : Bytes}

@[simp] theorem length_raw (nodeId : NodeId) : nodeId.raw.length = 32 := length_beBytes ..

theorem ofBe_raw (nodeId : NodeId) : BitVec.ofNat 256 (ofBe nodeId.raw) = nodeId := by
  rw [raw, ofBe_beBytes nodeId.isLt, BitVec.ofNat_toNat, BitVec.setWidth_eq]

theorem raw_ofBe (h : b.length = 32) : raw (BitVec.ofNat 256 (ofBe b)) = b := by
  have hlt : ofBe b < 2 ^ 256 := (ofBe_lt h).trans_eq (by norm_num)
  rw [raw, BitVec.toNat_ofNat, Nat.mod_eq_of_lt hlt, beBytes_ofBe h]

theorem parse_of_length (h : b.length = 32) : parse b = .ok (BitVec.ofNat 256 (ofBe b)) := by
  rw [parse, if_neg (by omega), h, Nat.sub_self, List.replicate_zero, List.append_nil]

/-- A string of 32 bytes is the id of a node. -/
theorem exists_raw (h : b.length = 32) : ∃ nodeId : NodeId, nodeId.raw = b :=
  ⟨_, raw_ofBe h⟩

end NodeId

namespace PacketKind

variable {kind : PacketKind} {flag : UInt8} {authData : Bytes}

theorem parseNodeId_raw (nodeId : NodeId) : parseNodeId nodeId.raw = .ok nodeId := by
  rw [parseNodeId, NodeId.parse_of_length nodeId.length_raw, NodeId.ofBe_raw]
  rfl

/-- What the lengths of the format can express. -/
def Sendable : PacketKind → Prop
  | handshake _ idNonceSig ephemPubkey recordBytes =>
    idNonceSig.length < 256 ∧ ephemPubkey.length < 256 ∧ recordBytes ≠ some []
  | _ => True

theorem decode_message (nodeId : NodeId) : decode 0 nodeId.raw = .ok (.message nodeId) := by
  simp [decode, parseNodeId_raw]

theorem decode_whoAreYou (idNonce : Buffer idNonceLength) (enrSeq : UInt64) :
    decode 1 (idNonce.bytes ++ beBytes 8 enrSeq.toNat) = .ok (.whoAreYou idNonce enrSeq) := by
  have hlen : (idNonce.bytes ++ beBytes 8 enrSeq.toNat).length = 24 := by
    rw [List.length_append, idNonce.len, length_beBytes]
    rfl
  have hseq : UInt64.ofNat (ofBe (beBytes 8 enrSeq.toNat)) = enrSeq := by
    rw [ofBe_beBytes (w := 8) enrSeq.toNat_lt, UInt64.ofNat_toNat]
  have hbytes : (range (idNonce.bytes ++ beBytes 8 enrSeq.toNat) idNonceLength 24 :
      Result PacketError Bytes) = .ok (beBytes 8 enrSeq.toNat) :=
    range_suffix idNonce.len (by rw [length_beBytes]; rfl)
  have harray : expectArray 8 (beBytes 8 enrSeq.toNat) = .ok ⟨_, length_beBytes 8 _⟩ :=
    expectArray_bytes ⟨_, length_beBytes 8 _⟩
  simp [decode, hlen, range_prefix idNonce.len, hbytes, expectArray_bytes, harray, hseq]

/-- The data of a handshake, in its parts. -/
theorem decode_handshake (nodeId : NodeId) (x y : UInt8) (rest : Bytes) :
    decode 2 (nodeId.raw ++ [x] ++ [y] ++ rest) =
      if rest.length < x.toNat + y.toNat then .error (.err .invalidAuthDataSize) else
      .ok (.handshake nodeId (rest.take x.toNat) ((rest.drop x.toNat).take y.toNat)
        (if x.toNat + y.toNat < rest.length then some (rest.drop (x.toNat + y.toNat))
          else none)) := by
  have hlen : (nodeId.raw ++ [x] ++ [y] ++ rest).length = 34 + rest.length := by
    simp only [List.length_append, NodeId.length_raw, List.length_singleton]
  have hid : (range (nodeId.raw ++ [x] ++ [y] ++ rest) 0 32 : Result PacketError Bytes) =
      .ok nodeId.raw := by
    rw [List.append_assoc, List.append_assoc]
    exact range_prefix nodeId.length_raw
  have hx : (index (nodeId.raw ++ [x] ++ [y] ++ rest) 32 : Result PacketError UInt8) = .ok x := by
    simp [index]
  have hy : (index (nodeId.raw ++ [x] ++ [y] ++ rest) 33 : Result PacketError UInt8) = .ok y := by
    rw [List.append_assoc _ [y], index_of_lt (by simp; omega)]
    simp
  have hrest : (range (nodeId.raw ++ [x] ++ [y] ++ rest) 34 (34 + rest.length) :
      Result PacketError Bytes) = .ok rest := range_suffix (by simp) rfl
  have hmin : ¬ 34 + rest.length < 34 := by omega
  have h0 : (2 : UInt8) ≠ 0 := by decide
  have h1 : (2 : UInt8) ≠ 1 := by decide
  simp only [decode, h0, h1, hlen, hid, hx, hy, hrest, hmin, parseNodeId_raw, ok_bind, if_false,
    if_true, Nat.add_lt_add_iff_left]
  by_cases hshort : rest.length < x.toNat + y.toNat
  · rw [if_pos hshort, if_pos hshort]
  · rw [if_neg hshort, if_neg hshort, range_of_le (Nat.zero_le _) (by omega),
      range_of_le (Nat.le_add_right ..) (by omega)]
    by_cases hmore : x.toNat + y.toNat < rest.length
    · rw [if_pos hmore, range_of_le (by omega) (Nat.le_refl _)]
      simp [List.drop_take, hmore]
    · simp [List.drop_take, hmore]

/-- Every string is too short for a handshake or has its parts. -/
theorem exists_parts (h : 34 ≤ authData.length) : ∃ (nodeId : NodeId) (x y : UInt8) (rest : Bytes),
    authData = nodeId.raw ++ [x] ++ [y] ++ rest := by
  obtain ⟨nodeId, hid⟩ : ∃ nodeId : NodeId, nodeId.raw = authData.take 32 :=
    NodeId.exists_raw (by rw [List.length_take]; omega)
  have hx : 32 < authData.length := by omega
  have hy : 33 < authData.length := by omega
  refine ⟨nodeId, authData[32], authData[33], authData.drop 34, ?_⟩
  rw [hid, List.append_assoc, List.append_assoc, List.singleton_append, List.singleton_append,
    ← List.drop_eq_getElem_cons hy, ← List.drop_eq_getElem_cons hx, List.take_append_drop]

theorem exists_nonce_seq (h : authData.length = 24) :
    ∃ (idNonce : Buffer idNonceLength) (enrSeq : UInt64),
      idNonce.bytes ++ beBytes 8 enrSeq.toNat = authData := by
  have hnonce : (authData.take 16).length = idNonceLength := by
    rw [List.length_take, h]
    rfl
  have hseq : (authData.drop 16).length = 8 := by
    rw [List.length_drop, h]
  refine ⟨⟨_, hnonce⟩, UInt64.ofNat (ofBe (authData.drop 16)), ?_⟩
  have hlt : ofBe (authData.drop 16) < 2 ^ 64 := (ofBe_lt hseq).trans_eq (by norm_num)
  rw [UInt64.toNat_ofNat_of_lt' hlt, beBytes_ofBe hseq, List.take_append_drop]

/-- What is read as a handshake is written so. -/
theorem handshake_of_parts {nodeId : NodeId} {x y : UInt8} {rest : Bytes}
    (hfits : x.toNat + y.toNat ≤ rest.length)
    (hkind : PacketKind.handshake nodeId (rest.take x.toNat) ((rest.drop x.toNat).take y.toNat)
      (if x.toNat + y.toNat < rest.length then some (rest.drop (x.toNat + y.toNat)) else none) =
        kind) :
    kind.Sendable ∧ kind.encode = nodeId.raw ++ [x] ++ [y] ++ rest := by
  have hx : (rest.take x.toNat).length = x.toNat := by
    rw [List.length_take]
    omega
  have hy : ((rest.drop x.toNat).take y.toNat).length = y.toNat := by
    rw [List.length_take, List.length_drop]
    omega
  have hrecord : (if x.toNat + y.toNat < rest.length then some (rest.drop (x.toNat + y.toNat))
      else none).getD [] = rest.drop (x.toNat + y.toNat) := by
    split
    · rfl
    · exact (List.drop_eq_nil_of_le (by omega)).symm
  subst hkind
  refine ⟨⟨?_, ?_, ?_⟩, ?_⟩
  · rw [hx]
    exact x.toNat_lt
  · rw [hy]
    exact y.toNat_lt
  · split
    · rw [ne_eq, Option.some.injEq, List.drop_eq_nil_iff]
      omega
    · simp
  · rw [encode, hx, hy, hrecord, UInt8.ofNat_toNat, UInt8.ofNat_toNat, ← List.drop_drop,
      List.append_assoc, List.take_append_drop, List.append_assoc, List.take_append_drop]

/-- **The data of a kind** is read if and only if it is what that kind is written as. -/
theorem decode_iff :
    decode flag authData = .ok kind ↔
      kind.Sendable ∧ kind.toU8 = flag ∧ kind.encode = authData := by
  constructor
  · intro h
    by_cases h0 : flag = 0
    · subst h0
      have hlen : authData.length = 32 := by
        by_contra hne
        simp [decode, hne] at h
      obtain ⟨nodeId, rfl⟩ := NodeId.exists_raw hlen
      rw [decode_message] at h
      obtain rfl := Except.ok.inj h
      exact ⟨trivial, rfl, rfl⟩
    by_cases h1 : flag = 1
    · subst h1
      have hlen : authData.length = 24 := by
        by_contra hne
        simp [decode, hne] at h
      obtain ⟨idNonce, enrSeq, rfl⟩ := exists_nonce_seq hlen
      rw [decode_whoAreYou] at h
      obtain rfl := Except.ok.inj h
      exact ⟨trivial, rfl, rfl⟩
    by_cases h2 : flag = 2
    · subst h2
      have hlen : 34 ≤ authData.length := by
        by_contra hne
        simp [decode, Nat.not_le.1 hne] at h
      obtain ⟨nodeId, x, y, rest, rfl⟩ := exists_parts hlen
      rw [decode_handshake] at h
      split at h
      · cases h
      · rename_i hfits
        obtain ⟨hsend, hencode⟩ := handshake_of_parts (Nat.not_lt.1 hfits) (Except.ok.inj h)
        obtain rfl := Except.ok.inj h
        exact ⟨hsend, rfl, hencode⟩
    · simp [decode, h0, h1, h2] at h
  · rintro ⟨hsend, rfl, rfl⟩
    cases kind with
    | message nodeId => exact decode_message nodeId
    | whoAreYou idNonce enrSeq => exact decode_whoAreYou idNonce enrSeq
    | handshake nodeId sig key record =>
      obtain ⟨hsig, hkey, hrecord⟩ := hsend
      have hparts : encode (.handshake nodeId sig key record) =
          nodeId.raw ++ [UInt8.ofNat sig.length] ++ [UInt8.ofNat key.length] ++
            (sig ++ key ++ record.getD []) := by
        simp only [encode, List.append_assoc]
      rw [hparts, toU8, decode_handshake, UInt8.toNat_ofNat_of_lt' hsig,
        UInt8.toNat_ofNat_of_lt' hkey]
      cases record with
      | none => simp
      | some record =>
        have hpos : 0 < record.length := List.length_pos_iff.2 fun h => hrecord (h ▸ rfl)
        simp [hpos]

/-- **Data of every kind** is read without a panic. -/
theorem decode_returns : Returns (decode flag authData) := by
  by_cases h0 : flag = 0
  · subst h0
    by_cases hlen : authData.length = 32
    · obtain ⟨nodeId, rfl⟩ := NodeId.exists_raw hlen
      rw [decode_message]
      exact Returns.ok _
    · simp [decode, hlen, Returns]
  by_cases h1 : flag = 1
  · subst h1
    by_cases hlen : authData.length = 24
    · obtain ⟨idNonce, enrSeq, rfl⟩ := exists_nonce_seq hlen
      rw [decode_whoAreYou]
      exact Returns.ok _
    · simp [decode, hlen, Returns]
  by_cases h2 : flag = 2
  · subst h2
    by_cases hlen : authData.length < 34
    · simp [decode, hlen, Returns]
    · obtain ⟨nodeId, x, y, rest, rfl⟩ := exists_parts (Nat.not_lt.1 hlen)
      rw [decode_handshake]
      split
      · exact Returns.err _
      · exact Returns.ok _
  · simp [decode, h0, h1, h2, Returns]

theorem length_encode (kind : PacketKind) : 24 ≤ kind.encode.length := by
  cases kind with
  | message nodeId => simp [encode]
  | whoAreYou idNonce enrSeq =>
    rw [encode, List.length_append, idNonce.len, length_beBytes]
    decide
  | handshake nodeId sig key record =>
    simp only [encode, List.length_append, NodeId.length_raw]
    omega

end PacketKind

namespace Packet

variable {aes : Bytes → Bytes → Nat → UInt8} {ownId : NodeId} {protocol : ProtocolIdentity}
  {data iv hidden rest authData : Bytes} {p : Packet}

/-- The static header in its parts. -/
def staticHeader (protocol : ProtocolIdentity) (flag : UInt8) (nonce : Buffer messageNonceLength)
    (size : Bytes) : Bytes :=
  protocol.protocolId.bytes ++ protocol.protocolVersion.bytes ++ [flag] ++ nonce.bytes ++ size

theorem exists_staticHeader {b : Bytes} (h : b.length = 23) :
    ∃ protocol flag nonce size, size.length = 2 ∧ b = staticHeader protocol flag nonce size := by
  have hid : (b.take 6).length = 6 := by rw [List.length_take, h]; rfl
  have hversion : ((b.drop 6).take 2).length = 2 := by simp [h]
  have hnonce : ((b.drop 9).take 12).length = messageNonceLength := by
    simp [h, messageNonceLength]
  have hflag : 8 < b.length := by omega
  refine ⟨⟨⟨_, hid⟩, ⟨_, hversion⟩⟩, b[8], ⟨_, hnonce⟩, b.drop 21, by simp [h], ?_⟩
  have h9 : (b.drop 9).take 12 ++ b.drop 21 = b.drop 9 := by
    rw [show b.drop 21 = (b.drop 9).drop 12 by rw [List.drop_drop], List.take_append_drop]
  have h8 : [b[8]] ++ b.drop 9 = b.drop 8 := (List.drop_eq_getElem_cons hflag).symm
  have h6 : (b.drop 6).take 2 ++ b.drop 8 = b.drop 6 := by
    rw [show b.drop 8 = (b.drop 6).drop 2 by rw [List.drop_drop], List.take_append_drop]
  simp only [staticHeader, List.append_assoc, h9, h8, h6, List.take_append_drop]

variable {protocol' : ProtocolIdentity} {flag : UInt8} {nonce : Buffer messageNonceLength}
  {size : Bytes} {cipher : StreamCipher}

/-- What is decoded behind the static header. -/
def restOf (protocol protocol' : ProtocolIdentity) (iv rest : Bytes) (flag : UInt8)
    (nonce : Buffer messageNonceLength) (size : Bytes) (cipher : StreamCipher) :
    Result PacketError (Packet × Bytes) :=
  let authData := mask cipher.keystream cipher.pos (rest.take (ofBe size))
  if rest.length < ofBe size then .error (.err .invalidAuthDataSize) else do
  let kind ← PacketKind.decode flag authData
  if rest.drop (ofBe size) ≠ [] ∧ kind.isWhoareyou then .error (.err .unknownPacket) else
  .ok ({ iv := BitVec.ofNat 128 (ofBe iv), header := ⟨nonce, protocol, kind⟩,
         message := rest.drop (ofBe size) },
    iv ++ staticHeader protocol' flag nonce size ++ authData)

theorem decodeRest_parts (hiv : iv.length = 16) (hhidden : hidden.length = 23)
    (hsize : size.length = 2) :
    decodeRest protocol (iv ++ hidden ++ rest) iv (staticHeader protocol' flag nonce size) cipher =
      restOf protocol protocol' iv rest flag nonce size cipher := by
  have hid := protocol'.protocolId.len
  have hversion := protocol'.protocolVersion.len
  have hlen : (staticHeader protocol' flag nonce size).length = 23 := by
    simp [staticHeader, hid, hversion, nonce.len, hsize, messageNonceLength]
  have hflag : (index (staticHeader protocol' flag nonce size) 8 : Result PacketError UInt8) =
      .ok flag := by
    rw [index_of_lt (by omega)]
    simp [staticHeader, hid, hversion]
  have hnonce : (range (staticHeader protocol' flag nonce size) 9 (9 + messageNonceLength) :
      Result PacketError Bytes) = .ok nonce.bytes :=
    range_middle (by simp [hid, hversion]) (by rw [nonce.len])
  have hsizes : (range (staticHeader protocol' flag nonce size) (staticHeaderLength - 2) 23 :
      Result PacketError Bytes) = .ok size :=
    range_suffix (by simp [hid, hversion, nonce.len, messageNonceLength, staticHeaderLength])
      (by rw [hsize]; rfl)
  have hdata : (iv ++ hidden ++ rest).length = 39 + rest.length := by
    simp only [List.length_append, hiv, hhidden]
  have hremaining : (range (iv ++ hidden ++ rest) (ivLength + staticHeaderLength)
      (39 + rest.length) : Result PacketError Bytes) = .ok rest :=
    range_suffix (by simp only [List.length_append, hiv, hhidden, ivLength, staticHeaderLength])
      (by rfl)
  rw [decodeRest, hflag, ok_bind, hnonce, ok_bind, expectArray_bytes, ok_bind, hlen, hsizes,
    ok_bind, expectArray_bytes ⟨size, hsize⟩, ok_bind, hdata, hremaining, ok_bind, restOf]
  by_cases hshort : rest.length < ofBe size
  · rw [if_pos hshort, if_pos hshort]
  · have htake : (rest.take (ofBe size)).length = ofBe size := by
      rw [List.length_take]
      omega
    have hdrop : 39 + ofBe size + (rest.drop (ofBe size)).length = 39 + rest.length := by
      rw [List.length_drop]
      omega
    have hsplit : iv ++ hidden ++ rest =
        iv ++ hidden ++ rest.take (ofBe size) ++ rest.drop (ofBe size) := by
      rw [List.append_assoc _ (rest.take _), List.take_append_drop]
    have hauth : (range (iv ++ hidden ++ rest) (ivLength + staticHeaderLength)
        (ivLength + staticHeaderLength + ofBe size) : Result PacketError Bytes) =
          .ok (rest.take (ofBe size)) := by
      rw [hsplit]
      exact range_middle (by simp [hiv, hhidden, ivLength, staticHeaderLength]) (by rw [htake])
    have hmessage : (range (iv ++ hidden ++ rest) (ivLength + staticHeaderLength + ofBe size)
        (39 + rest.length) : Result PacketError Bytes) = .ok (rest.drop (ofBe size)) := by
      rw [hsplit]
      exact range_suffix
        (by simp only [List.length_append, hiv, hhidden, htake, ivLength, staticHeaderLength]) hdrop
    have hivs : expectArray ivLength iv = .ok ⟨iv, hiv⟩ := expectArray_bytes ⟨iv, hiv⟩
    rw [if_neg hshort, if_neg hshort, hauth, ok_bind]
    simp only [applyKeystream, hmessage, hivs, ok_bind]

theorem decode_parts (hiv : iv.length = 16) (hhidden : hidden.length = 23)
    (hstatic : mask (aes (ownId.raw.take 16) iv) 0 hidden = staticHeader protocol' flag nonce size)
    (hsize : size.length = 2) :
    decode aes ownId protocol (iv ++ hidden ++ rest) =
      if 1280 < 39 + rest.length then .error (.err .tooLarge)
      else if rest.length < 24 then .error (.err .tooSmall)
      else if protocol'.protocolId ≠ protocol.protocolId then
        .error (.err .headerDecryptionFailed)
      else if protocol'.protocolVersion ≠ protocol.protocolVersion then
        .error (.err (.invalidVersion (UInt16.ofNat (ofBe protocol'.protocolVersion.bytes))))
      else restOf protocol protocol' iv rest flag nonce size
        { keystream := aes (ownId.raw.take 16) iv, pos := 23 } := by
  have hid := protocol'.protocolId.len
  have hversion := protocol'.protocolVersion.len
  have hlen : (staticHeader protocol' flag nonce size).length = 23 := by
    rw [← hstatic, length_mask, hhidden]
  have hdata : (iv ++ hidden ++ rest).length = 39 + rest.length := by
    simp only [List.length_append, hiv, hhidden]
  have hmin : 39 + rest.length < minPacketSize ↔ rest.length < 24 := by
    simp only [minPacketSize, ivLength, staticHeaderLength]
    omega
  have hivs : (range (iv ++ hidden ++ rest) 0 ivLength : Result PacketError Bytes) = .ok iv := by
    rw [List.append_assoc]
    exact range_prefix hiv
  have hheader : (range (iv ++ hidden ++ rest) ivLength (ivLength + staticHeaderLength) :
      Result PacketError Bytes) = .ok hidden := range_middle hiv (by rw [hhidden]; rfl)
  have hids : (range (staticHeader protocol' flag nonce size) 0 6 : Result PacketError Bytes) =
      .ok protocol'.protocolId.bytes := by
    simp only [staticHeader, List.append_assoc]
    exact range_prefix hid
  have hversions : (range (staticHeader protocol' flag nonce size) 6 8 :
      Result PacketError Bytes) = .ok protocol'.protocolVersion.bytes := by
    simp only [staticHeader, List.append_assoc _ [flag], List.append_assoc _ nonce.bytes,
      List.append_assoc _ _ size]
    exact range_middle hid (by rw [hversion])
  rw [decode, hdata, maxPacketSize]
  by_cases hlarge : 1280 < 39 + rest.length
  · rw [if_pos hlarge, if_pos hlarge]
  by_cases hsmall : rest.length < 24
  · rw [if_neg hlarge, if_neg hlarge, if_pos (hmin.2 hsmall), if_pos hsmall]
  rw [if_neg hlarge, if_neg hlarge, if_neg (mt hmin.1 hsmall), if_neg hsmall, hivs, ok_bind,
    hheader, ok_bind]
  simp only [applyKeystream, StreamCipher.new, hstatic, hlen, staticHeaderLength, hids, hversions,
    ok_bind, ne_eq, not_true_eq_false, if_false, bytes_inj, Nat.zero_add, hhidden]
  rw [decodeRest_parts hiv hhidden hsize, expectArray_bytes]
  rfl

/-- What the lengths of the format can express; a challenge carries no message. -/
structure Sendable (p : Packet) : Prop where
  kind : p.header.kind.Sendable
  message : p.header.kind.isWhoareyou = true → p.message = []

theorem header_encode (h : PacketHeader) :
    h.encode = staticHeader h.protocolIdentity h.kind.toU8 h.messageNonce
      (beBytes 2 (h.kind.encode.length % 2 ^ 16)) ++ h.kind.encode := rfl

theorem length_staticHeader (hsize : size.length = 2) :
    (staticHeader protocol flag nonce size).length = 23 := by
  simp [staticHeader, protocol.protocolId.len, protocol.protocolVersion.len, nonce.len, hsize,
    messageNonceLength]

/-- A packet in the parts that the decoder takes it apart into. -/
theorem encode_parts (p : Packet) :
    p.encode aes ownId = beBytes 16 p.iv.toNat ++
      mask (aes (ownId.raw.take 16) (beBytes 16 p.iv.toNat)) 0
        (staticHeader p.header.protocolIdentity p.header.kind.toU8 p.header.messageNonce
          (beBytes 2 (p.header.kind.encode.length % 2 ^ 16))) ++
      (mask (aes (ownId.raw.take 16) (beBytes 16 p.iv.toNat)) 23 p.header.kind.encode ++
        p.message) := by
  rw [encode, encryptHeader, header_encode]
  simp only [applyKeystream, StreamCipher.new]
  rw [mask_append, length_staticHeader (length_beBytes ..), Nat.zero_add]
  simp only [List.append_assoc]

theorem ofBe_iv (v : BitVec 128) : BitVec.ofNat 128 (ofBe (beBytes 16 v.toNat)) = v := by
  rw [ofBe_beBytes v.isLt, BitVec.ofNat_toNat, BitVec.setWidth_eq]

theorem beBytes_iv (hiv : iv.length = 16) : beBytes 16 (BitVec.ofNat 128 (ofBe iv)).toNat = iv := by
  have hlt : ofBe iv < 2 ^ 128 := (ofBe_lt hiv).trans_eq (by norm_num)
  rw [BitVec.toNat_ofNat, Nat.mod_eq_of_lt hlt, beBytes_ofBe hiv]

theorem decode_encode (hsend : p.Sendable) (hlen : (p.encode aes ownId).length ≤ 1280) :
    decode aes ownId p.header.protocolIdentity (p.encode aes ownId) =
      .ok (p, p.authenticatedData) := by
  have hmin := p.header.kind.length_encode
  rw [encode_parts] at hlen ⊢
  simp only [List.length_append, length_beBytes, length_mask,
    length_staticHeader (length_beBytes 2 _)] at hlen
  rw [decode_parts (length_beBytes ..)
    (by rw [length_mask, length_staticHeader (length_beBytes ..)]) (mask_mask _)
    (length_beBytes ..)]
  have hsize : ofBe (beBytes 2 (p.header.kind.encode.length % 2 ^ 16)) =
      p.header.kind.encode.length := by
    rw [Nat.mod_eq_of_lt (by omega)]
    exact ofBe_beBytes (by norm_num; omega)
  have hkind : PacketKind.decode p.header.kind.toU8 p.header.kind.encode = .ok p.header.kind :=
    PacketKind.decode_iff.2 ⟨hsend.kind, rfl, rfl⟩
  have hmessage : ¬ (p.message ≠ [] ∧ p.header.kind.isWhoareyou = true) := fun h =>
    h.1 (hsend.message h.2)
  have htake : ∀ m : Bytes, m.length = p.header.kind.encode.length →
      (m ++ p.message).take p.header.kind.encode.length = m ∧
        (m ++ p.message).drop p.header.kind.encode.length = p.message := fun m hm =>
    ⟨List.take_left' hm, List.drop_left' hm⟩
  obtain ⟨htake, hdrop⟩ := htake _ (length_mask p.header.kind.encode)
  rw [if_neg (by simp only [List.length_append, length_mask]; omega),
    if_neg (by simp only [List.length_append, length_mask]; omega), if_neg (by simp),
    if_neg (by simp), restOf, hsize, if_neg (by simp only [List.length_append, length_mask]; omega),
    htake, hdrop, mask_mask, hkind, ok_bind, if_neg hmessage, ofBe_iv]
  simp [authenticatedData, header_encode]

theorem restOf_eq_ok {ad : Bytes} (hiv : iv.length = 16)
    (hstatic : mask (aes (ownId.raw.take 16) iv) 0 hidden = staticHeader protocol flag nonce size)
    (hsize : size.length = 2)
    (h : restOf protocol protocol iv rest flag nonce size
      { keystream := aes (ownId.raw.take 16) iv, pos := 23 } = .ok (p, ad)) :
    p.Sendable ∧ p.header.protocolIdentity = protocol ∧
      p.encode aes ownId = iv ++ hidden ++ rest ∧ ad = p.authenticatedData := by
  rw [restOf] at h
  split at h
  · cases h
  rename_i hshort
  obtain ⟨kind, hkind, h⟩ := bind_eq_ok h
  split at h
  · cases h
  rename_i hmessage
  obtain ⟨rfl, rfl⟩ := Prod.mk.inj (Except.ok.inj h)
  obtain ⟨hsend, rfl, hencode⟩ := PacketKind.decode_iff.1 hkind
  have htake : (rest.take (ofBe size)).length = ofBe size := by
    rw [List.length_take]
    omega
  have hlen : kind.encode.length = ofBe size := by
    rw [hencode, length_mask, htake]
  have hbytes : beBytes 2 (kind.encode.length % 2 ^ 16) = size := by
    have hlt : ofBe size < 2 ^ 16 := (ofBe_lt hsize).trans_eq (by norm_num)
    rw [hlen, Nat.mod_eq_of_lt hlt, beBytes_ofBe hsize]
  refine ⟨⟨hsend, fun hwho => ?_⟩, rfl, ?_, ?_⟩
  · by_contra hne
    exact hmessage ⟨hne, hwho⟩
  · rw [encode_parts]
    simp only [beBytes_iv hiv, hbytes]
    rw [← hstatic, mask_mask, hencode, mask_mask, List.take_append_drop]
  · simp only [authenticatedData, header_encode, beBytes_iv hiv, hbytes]
    rw [hencode, List.append_assoc]

theorem restOf_returns : Returns (restOf protocol protocol' iv rest flag nonce size cipher) := by
  rw [restOf]
  split
  · exact Returns.err _
  · refine Returns.bind PacketKind.decode_returns fun kind hkind => ?_
    split
    · exact Returns.err _
    · exact Returns.ok _

/-- A datagram that is long enough, in its parts. -/
theorem exists_datagram (aes : Bytes → Bytes → Nat → UInt8) (ownId : NodeId)
    (h : minPacketSize ≤ data.length) :
    ∃ iv hidden rest protocol flag nonce size, data = iv ++ hidden ++ rest ∧ iv.length = 16 ∧
      hidden.length = 23 ∧ size.length = 2 ∧
      mask (aes (ownId.raw.take 16) iv) 0 hidden = staticHeader protocol flag nonce size := by
  have h : 63 ≤ data.length := h
  have hhidden : ((data.drop 16).take 23).length = 23 := by
    rw [List.length_take, List.length_drop]
    omega
  obtain ⟨protocol, flag, nonce, size, hsize, hstatic⟩ := exists_staticHeader
    ((length_mask _).trans hhidden : (mask (aes (ownId.raw.take 16) (data.take 16)) 0
      ((data.drop 16).take 23)).length = 23)
  refine ⟨data.take 16, (data.drop 16).take 23, data.drop 39, protocol, flag, nonce, size, ?_, ?_,
    hhidden, hsize, hstatic⟩
  · have hdrop : data.drop 39 = (data.drop 16).drop 23 := by rw [List.drop_drop]
    rw [hdrop, List.append_assoc, List.take_append_drop, List.take_append_drop]
  · rw [List.length_take]
    omega

theorem decode_returns : Returns (decode aes ownId protocol data) := by
  by_cases hsmall : data.length < minPacketSize
  · rw [decode, if_pos hsmall]
    split <;> exact Returns.err _
  · obtain ⟨iv, hidden, rest, protocol', flag, nonce, size, rfl, hiv, hhidden, hsize, hstatic⟩ :=
      exists_datagram aes ownId (Nat.not_lt.1 hsmall)
    rw [decode_parts hiv hhidden hstatic hsize]
    split
    · exact Returns.err _
    split
    · exact Returns.err _
    split
    · exact Returns.err _
    split
    · exact Returns.err _
    · exact restOf_returns

theorem decode_eq_ok {ad : Bytes} (h : decode aes ownId protocol data = .ok (p, ad)) :
    p.Sendable ∧ p.header.protocolIdentity = protocol ∧ p.encode aes ownId = data ∧
      data.length ≤ 1280 ∧ ad = p.authenticatedData := by
  by_cases hsmall : data.length < minPacketSize
  · rw [decode, if_pos hsmall] at h
    split at h <;> cases h
  · obtain ⟨iv, hidden, rest, protocol', flag, nonce, size, rfl, hiv, hhidden, hsize, hstatic⟩ :=
      exists_datagram aes ownId (Nat.not_lt.1 hsmall)
    rw [decode_parts hiv hhidden hstatic hsize] at h
    split at h
    · cases h
    rename_i hlarge
    split at h
    · cases h
    split at h
    · cases h
    rename_i hid
    split at h
    · cases h
    rename_i hversion
    have hsame : protocol' = protocol := by
      obtain ⟨id, version⟩ := protocol
      obtain ⟨id', version'⟩ := protocol'
      obtain rfl : id' = id := not_not.1 hid
      obtain rfl : version' = version := not_not.1 hversion
      rfl
    subst hsame
    obtain ⟨hsend, hprotocol, hencode, had⟩ := restOf_eq_ok hiv hstatic hsize h
    refine ⟨hsend, hprotocol, hencode, ?_, had⟩
    simp only [List.length_append, hiv, hhidden]
    omega

/-- **The codec is exact.** No datagram makes the decoder panic, and it gives a packet if and only
if the datagram is, of at most 1280 bytes, the encoding of that packet for the receiver: the packet
is of the receiver's protocol, its lengths fit the format, and a challenge carries no message. The
authenticated data are those of the packet. -/
theorem decode_exact (aes : Bytes → Bytes → Nat → UInt8) (ownId : NodeId)
    (protocol : ProtocolIdentity) (data : Bytes) :
    Returns (decode aes ownId protocol data) ∧
      ∀ p ad, decode aes ownId protocol data = .ok (p, ad) ↔
        p.Sendable ∧ p.header.protocolIdentity = protocol ∧ p.encode aes ownId = data ∧
          data.length ≤ 1280 ∧ ad = p.authenticatedData := by
  refine ⟨decode_returns, fun p ad => ⟨decode_eq_ok, ?_⟩⟩
  rintro ⟨hsend, rfl, rfl, hlen, rfl⟩
  exact decode_encode hsend hlen

end Packet

end Discv5
