import Neverust.Lib.Sha256
import Neverust.Spr

/-!
# Signed peer records in the format of nim-libp2p

`createSignedPeerRecord` writes the envelope that provider announcements carry. The envelope of
`generate_spr` is meant to be the same record.

* `Agree`: the envelopes hold the same key, payload type and payload, and the same bytes are signed.
* `encoders_disagree`: they never agree, and where they differ.
-/

namespace IdentifySpr

open Multiformats Protobuf Spr

/-! ## Messages -/

structure AddressInfo where
  multiaddr : Bytes
  deriving Repr, DecidableEq

structure PeerRecord where
  peerId : Bytes
  seq : UInt64
  addresses : List AddressInfo
  deriving Repr, DecidableEq

structure Envelope where
  publicKey : Bytes
  payloadType : Bytes
  payload : Bytes
  signature : Bytes
  deriving Repr, DecidableEq

def AddressInfo.encode (a : AddressInfo) : Bytes := writeFields (blobField 1 a.multiaddr)

def PeerRecord.encode (r : PeerRecord) : Bytes :=
  writeFields (blobField 1 r.peerId ++ uintField 2 r.seq.toNat ++
    partFields 3 (r.addresses.map AddressInfo.encode))

def Envelope.encode (e : Envelope) : Bytes :=
  writeFields (blobField 1 e.publicKey ++ blobField 2 e.payloadType ++ blobField 3 e.payload ++
    blobField 5 e.signature)

/-! ## Writing a record -/

/-- `PEER_RECORD_DOMAIN`. -/
def peerRecordDomain : String := "libp2p-peer-record"

/-- `PEER_RECORD_PAYLOAD_TYPE`. -/
def peerRecordPayloadType : Bytes := [0x03, 0x01]

def writeVarint (buf : Bytes) (value : Nat) : Bytes := buf ++ varint value

/-- The bytes that are signed: the domain, the payload type and the payload, each after its
length. -/
def signatureBuffer (payload : Bytes) : Bytes :=
  let domain := peerRecordDomain.toList.map fun c => UInt8.ofNat c.toNat
  let buf := writeVarint [] domain.length ++ domain
  let buf := writeVarint buf peerRecordPayloadType.length ++ peerRecordPayloadType
  writeVarint buf payload.length ++ payload

/-- `PeerId::from(keypair.public()).to_bytes()`: a key of at most 42 bytes stands in the peer id, a
longer one is hashed. -/
def peerIdBytes (keypair : Keypair) : Bytes :=
  let key := keypair.publicKey
  if key.length ≤ 42 then 0x00 :: UInt8.ofNat key.length :: key
  else 0x12 :: 0x20 :: Sha256.hash key

/-- The peer record of `create_signed_peer_record`. -/
def peerRecordBytes (peerId : Bytes) (addrs : List Bytes) (seq : UInt64) : Bytes :=
  PeerRecord.encode { peerId, seq, addresses := addrs.map fun addr => { multiaddr := addr } }

/-- `create_signed_peer_record`. `now` is the clock: the seconds since 1970, or why there are
none. -/
def createSignedPeerRecord (keypair : Keypair) (peerId : Bytes) (addrs : List Bytes)
    (now : Except String UInt64) : Except String Bytes := do
  let seq ← now.mapError fun e => s!"System time error: {e}"
  let payload := peerRecordBytes peerId addrs seq
  let signature ← (keypair.sign (signatureBuffer payload)).mapError fun e => s!"Failed to sign: {e}"
  return Envelope.encode
    { publicKey := keypair.publicKey, payloadType := peerRecordPayloadType, payload, signature }

/-! ## The two encoders -/

/-- The bytes under a tag of an envelope. -/
def envelopeField (tag : Nat) (b : Bytes) : Option Bytes := do
  let fs ← readFields b
  blob tag fs

/-- The envelopes `a` and `b` hold the same record, where `m` is signed for the one and `n` for the
other. -/
structure Agree (a b m n : Bytes) : Prop where
  publicKey : envelopeField 1 a = envelopeField 1 b
  payloadType : envelopeField 2 a = envelopeField 2 b
  payload : envelopeField 3 a = envelopeField 3 b
  signed : m = n

theorem envelopeField_writeFields {tag : Nat} {b : Bytes} {fs : List Field}
    (h : blob tag fs = some b) : envelopeField tag (writeFields fs) = some b := by
  rw [envelopeField, readFields_writeFields]
  exact h

theorem blob_one {tag : Nat} {b : Bytes} {fs : List Field} (h : values tag fs = [.bytes b]) :
    blob tag fs = some b := by
  rw [blob, h]
  rfl

theorem sprEnvelope_eq {keypair : Keypair} {addrs : List Bytes} {seq : UInt64} {a : Bytes}
    (h : sprEnvelope keypair addrs seq = .ok a) :
    envelopeField 1 a = some keypair.publicKey ∧ envelopeField 2 a = some (seqBytes seq) ∧
      envelopeField 3 a = some (peerInfoBytes keypair addrs seq) := by
  unfold sprEnvelope at h
  cases hs : keypair.sign (peerInfoBytes keypair addrs seq) with
  | error e =>
    rw [hs] at h
    cases h
  | ok signature =>
    rw [hs] at h
    cases h
    refine ⟨?_, ?_, ?_⟩
    · exact envelopeField_writeFields (blob_one (by simp))
    · exact envelopeField_writeFields (blob_one (by simp))
    · exact envelopeField_writeFields (blob_one (by simp))

theorem createSignedPeerRecord_eq {keypair : Keypair} {peerId : Bytes} {addrs : List Bytes}
    {seq : UInt64} {b : Bytes}
    (h : createSignedPeerRecord keypair peerId addrs (.ok seq) = .ok b) :
    envelopeField 1 b = some keypair.publicKey ∧
      envelopeField 2 b = some peerRecordPayloadType ∧
      envelopeField 3 b = some (peerRecordBytes peerId addrs seq) := by
  unfold createSignedPeerRecord at h
  change (do
    let signature ← (keypair.sign (signatureBuffer (peerRecordBytes peerId addrs seq))).mapError
      fun e => s!"Failed to sign: {e}"
    return Envelope.encode _) = _ at h
  cases hs : keypair.sign (signatureBuffer (peerRecordBytes peerId addrs seq)) with
  | error e =>
    rw [hs] at h
    cases h
  | ok signature =>
    rw [hs] at h
    cases h
    refine ⟨?_, ?_, ?_⟩
    · exact envelopeField_writeFields (blob_values (by simp))
    · exact envelopeField_writeFields (blob_values (by simp))
    · exact envelopeField_writeFields (blob_values (by simp))

/-- A peer id is longer than a short key, and shorter than a long one. -/
theorem peerIdBytes_ne (keypair : Keypair) : keypair.publicKey ≠ peerIdBytes keypair := by
  intro h
  have hlen := congrArg List.length h
  simp only [peerIdBytes] at hlen
  split at hlen
  · simp only [List.length_cons] at hlen
    omega
  · simp only [List.length_cons, Sha256.length_hash] at hlen
    omega

/-- The one payload names the key, the other the peer id. -/
theorem payloads_differ (keypair : Keypair) (addrs : List Bytes) (seq : UInt64) :
    peerInfoBytes keypair addrs seq ≠ peerRecordBytes (peerIdBytes keypair) addrs seq := by
  intro h
  have hfields := congrArg readFields h
  rw [peerInfoBytes, peerRecordBytes, PeerInfo.encode, PeerRecord.encode, readFields_writeFields,
    readFields_writeFields] at hfields
  have hvalues := congrArg (Option.map (blob 1)) hfields
  have hinfo : values 1 (optFields 1 (some keypair.publicKey) ++ uintField 2 seq.toNat ++
      partFields 3 (addrs.map fun addr => AddrWrapper.encode { addr := some addr })) =
      [.bytes keypair.publicKey] := by simp
  have hrecord : values 1 (blobField 1 (peerIdBytes keypair) ++ uintField 2 seq.toNat ++
      partFields 3 ((addrs.map fun addr => { multiaddr := addr }).map AddressInfo.encode)) =
      if peerIdBytes keypair ≠ [] then [.bytes (peerIdBytes keypair)] else [] := by simp
  rw [Option.map_some, Option.map_some, blob_one hinfo, blob_values hrecord] at hvalues
  exact peerIdBytes_ne keypair (Option.some.inj (Option.some.inj hvalues))

/-- The one buffer starts with the key of a field, the other with the length of the domain. -/
theorem buffers_differ (keypair : Keypair) (addrs : List Bytes) (seq : UInt64) (payload : Bytes) :
    peerInfoBytes keypair addrs seq ≠ signatureBuffer payload := by
  intro h
  have hinfo : ∃ rest, peerInfoBytes keypair addrs seq = varint 10 ++ rest :=
    ⟨_, List.append_assoc _ _ _⟩
  have hbuffer : ∃ rest, signatureBuffer payload = varint 18 ++ rest :=
    ⟨_, by simp only [signatureBuffer, writeVarint, List.append_assoc, List.nil_append]; rfl⟩
  obtain ⟨r, hr⟩ := hinfo
  obtain ⟨r', hr'⟩ := hbuffer
  rw [hr, hr'] at h
  have hread := congrArg readVarint h
  rw [readVarint_varint, readVarint_varint] at hread
  simp at hread

theorem seqBytes_eq_iff (seq : UInt64) :
    seqBytes seq = peerRecordPayloadType ↔ seq.toNat % 65536 = 0x0301 := by
  simp only [seqBytes, peerRecordPayloadType, List.cons.injEq, and_true, ← UInt8.toNat_inj,
    UInt8.toNat_ofNat']
  rw [show (0x03 : UInt8).toNat = 3 by rfl, show (0x01 : UInt8).toNat = 1 by rfl]
  omega

/-- **The encoders never agree.** Where both write an envelope, the keys are the same, the payload
types are if the lowest 16 bits of the sequence number happen to be 0x0301, the payloads and the
signed bytes are not. -/
theorem encoders_disagree (keypair : Keypair) (addrs : List Bytes) (seq : UInt64) :
    (¬ ∃ a b, sprEnvelope keypair addrs seq = .ok a ∧
      createSignedPeerRecord keypair (peerIdBytes keypair) addrs (.ok seq) = .ok b ∧
      Agree a b (peerInfoBytes keypair addrs seq)
        (signatureBuffer (peerRecordBytes (peerIdBytes keypair) addrs seq))) ∧
    ∀ a b, sprEnvelope keypair addrs seq = .ok a →
      createSignedPeerRecord keypair (peerIdBytes keypair) addrs (.ok seq) = .ok b →
      envelopeField 1 a = envelopeField 1 b ∧
      (envelopeField 2 a = envelopeField 2 b ↔ seq.toNat % 65536 = 0x0301) ∧
      envelopeField 3 a ≠ envelopeField 3 b ∧
      peerInfoBytes keypair addrs seq ≠
        signatureBuffer (peerRecordBytes (peerIdBytes keypair) addrs seq) := by
  refine ⟨fun ⟨_, _, _, _, h⟩ => buffers_differ keypair addrs seq _ h.signed,
    fun a b ha hb => ?_⟩
  obtain ⟨hka, hta, hpa⟩ := sprEnvelope_eq ha
  obtain ⟨hkb, htb, hpb⟩ := createSignedPeerRecord_eq hb
  refine ⟨hka.trans hkb.symm, ?_, ?_, buffers_differ keypair addrs seq _⟩
  · rw [hta, htb, Option.some.injEq]
    exact seqBytes_eq_iff seq
  · rw [hpa, hpb, Ne, Option.some.injEq]
    exact payloads_differ keypair addrs seq

/-- A secp256k1 key. -/
def testKeypair : Keypair where
  publicKey := [0x08, 0x02, 0x12, 0x21, 0x03, 0x99, 0xa0, 0xd7, 0x52, 0xd9, 0x80, 0x54, 0x38, 0x5f,
    0x32, 0x11, 0x6f, 0x54, 0xf9, 0xc7, 0x0f, 0x66, 0xb8, 0x55, 0xb5, 0x00, 0xb3, 0x4a, 0x4e, 0x28,
    0xf2, 0x2a, 0x14, 0x26, 0xbc, 0xa6, 0x17]
  sign := fun _ => .ok [0x30, 0x45]

theorem encoders_disagree_test :
    ∃ a b, sprEnvelope testKeypair [] 1757426327 = .ok a ∧
      createSignedPeerRecord testKeypair (peerIdBytes testKeypair) [] (.ok 1757426327) = .ok b ∧
      envelopeField 3 a ≠ envelopeField 3 b :=
  ⟨_, _, rfl, rfl, ((encoders_disagree testKeypair [] 1757426327).2 _ _ rfl rfl).2.2.1⟩

theorem encoders_differ :
    ¬ ∀ (keypair : Keypair) (addrs : List Bytes) (seq : UInt64) (a b : Bytes),
      sprEnvelope keypair addrs seq = .ok a →
      createSignedPeerRecord keypair (peerIdBytes keypair) addrs (.ok seq) = .ok b →
      Agree a b (peerInfoBytes keypair addrs seq)
        (signatureBuffer (peerRecordBytes (peerIdBytes keypair) addrs seq)) := by
  intro h
  obtain ⟨a, ha⟩ : ∃ a, sprEnvelope testKeypair [] 1757426327 = .ok a := ⟨_, rfl⟩
  obtain ⟨b, hb⟩ : ∃ b, createSignedPeerRecord testKeypair (peerIdBytes testKeypair) []
    (.ok 1757426327) = .ok b := ⟨_, rfl⟩
  have htype := (h testKeypair [] 1757426327 a b ha hb).payloadType
  rw [(sprEnvelope_eq ha).2.1, (createSignedPeerRecord_eq hb).2.1] at htype
  exact absurd htype (by decide)

end IdentifySpr
