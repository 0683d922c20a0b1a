import Neverust.Discv5.RateLimiter
import Neverust.Lib.BigEndian
import Neverust.Lib.StreamCipher

/-!
# Packets (`packet/mod.rs`)

A packet is the IV, the header under a mask and the message as it is. The mask is the keystream of
AES-CTR for the first 16 bytes of the receiver's id and the IV; the cipher is of a third-party crate
and given by its keystream.
-/

namespace Discv5

open Bytes Rust

namespace NodeId

def raw (nodeId : NodeId) : Bytes := beBytes 32 nodeId.toNat

def parse (rawInput : Bytes) : Except String NodeId :=
  if 32 < rawInput.length then .error "Input too large" else
  .ok (BitVec.ofNat 256 (ofBe (rawInput ++ List.replicate (32 - rawInput.length) 0)))

end NodeId

def ivLength : Nat := 16
def staticHeaderLength : Nat := 23
def messageNonceLength : Nat := 12
def idNonceLength : Nat := 16
def maxPacketSize : Nat := 1280
def minPacketSize : Nat := ivLength + staticHeaderLength + 24

structure ProtocolIdentity where
  protocolId : Buffer 6
  protocolVersion : Buffer 2
  deriving DecidableEq

inductive PacketError
  | unknownPacket
  | tooLarge
  | tooSmall
  | invalidNodeId
  | headerLengthInvalid (size : Nat)
  | headerDecryptionFailed
  | invalidAuthDataSize
  | invalidVersion (version : UInt16)
  deriving Repr, DecidableEq

inductive PacketKind
  | message (srcId : NodeId)
  | whoAreYou (idNonce : Buffer idNonceLength) (enrSeq : UInt64)
  | handshake (srcId : NodeId) (idNonceSig ephemPubkey : Bytes) (recordBytes : Option Bytes)
  deriving DecidableEq

structure PacketHeader where
  messageNonce : Buffer messageNonceLength
  protocolIdentity : ProtocolIdentity
  kind : PacketKind
  deriving DecidableEq

structure Packet where
  iv : BitVec 128
  header : PacketHeader
  message : Bytes
  deriving DecidableEq

/-- `try_into().expect()` into an array. -/
def expectArray (n : Nat) (b : Bytes) : Result PacketError (Buffer n) :=
  if h : b.length = n then .ok ⟨b, h⟩ else .error (.panic .index)

namespace PacketKind

def toU8 : PacketKind → UInt8
  | message _ => 0
  | whoAreYou _ _ => 1
  | handshake _ _ _ _ => 2

def encode : PacketKind → Bytes
  | message srcId => srcId.raw
  | whoAreYou idNonce enrSeq => idNonce.bytes ++ beBytes 8 enrSeq.toNat
  | handshake srcId idNonceSig ephemPubkey recordBytes =>
    srcId.raw ++ [UInt8.ofNat idNonceSig.length] ++ [UInt8.ofNat ephemPubkey.length] ++
      idNonceSig ++ ephemPubkey ++ recordBytes.getD []

def isWhoareyou : PacketKind → Bool
  | whoAreYou _ _ => true
  | _ => false

def parseNodeId (b : Bytes) : Result PacketError NodeId :=
  (NodeId.parse b).mapError fun _ => .err .invalidNodeId

def decode (kind : UInt8) (authData : Bytes) : Result PacketError PacketKind :=
  if kind = 0 then
    if authData.length ≠ 32 then .error (.err .invalidAuthDataSize) else do
    let srcId ← parseNodeId authData
    .ok (.message srcId)
  else if kind = 1 then
    if authData.length ≠ 24 then .error (.err .invalidAuthDataSize) else do
    let idNonce ← expectArray idNonceLength (← range authData 0 idNonceLength)
    let enrSeq ← expectArray 8 (← range authData idNonceLength authData.length)
    .ok (.whoAreYou idNonce (UInt64.ofNat (ofBe enrSeq.bytes)))
  else if kind = 2 then
    if authData.length < 34 then .error (.err .invalidAuthDataSize) else do
    let srcId ← parseNodeId (← range authData 0 32)
    let sigSize := (← index authData 32).toNat
    let ephKeySize := (← index authData 33).toNat
    let totalSize := sigSize + ephKeySize
    if authData.length < 34 + totalSize then .error (.err .invalidAuthDataSize) else do
    let remainingData ← range authData 34 authData.length
    let idNonceSig ← range remainingData 0 sigSize
    let ephemPubkey ← range remainingData sigSize totalSize
    if totalSize < remainingData.length then do
      let recordBytes ← range remainingData totalSize remainingData.length
      .ok (.handshake srcId idNonceSig ephemPubkey (some recordBytes))
    else .ok (.handshake srcId idNonceSig ephemPubkey none)
  else .error (.err .unknownPacket)

end PacketKind

def PacketHeader.encode (h : PacketHeader) : Bytes :=
  let authData := h.kind.encode
  h.protocolIdentity.protocolId.bytes ++ h.protocolIdentity.protocolVersion.bytes ++
    [h.kind.toU8] ++ h.messageNonce.bytes ++ beBytes 2 (authData.length % 2 ^ 16) ++ authData

namespace Packet

/-- `src_id`: packets other than a challenge tell who sends them. -/
def srcId (p : Packet) : Option NodeId :=
  match p.header.kind with
  | .message srcId => some srcId
  | .whoAreYou _ _ => none
  | .handshake srcId _ _ _ => some srcId

def authenticatedData (p : Packet) : Bytes := beBytes 16 p.iv.toNat ++ p.header.encode

-- the keystream for a key and a nonce
variable (aes : Bytes → Bytes → Nat → UInt8)

def encryptHeader (p : Packet) (dstId : NodeId) : Bytes :=
  let cipher := StreamCipher.new (aes (dstId.raw.take 16) (beBytes 16 p.iv.toNat))
  (cipher.applyKeystream p.header.encode).1

def encode (p : Packet) (dstId : NodeId) : Bytes :=
  beBytes 16 p.iv.toNat ++ p.encryptHeader aes dstId ++ p.message

/-- What is decoded once the static header is in the clear. -/
def decodeRest (protocolIdentity : ProtocolIdentity) (data iv staticHeader : Bytes)
    (cipher : StreamCipher) : Result PacketError (Packet × Bytes) := do
  let flag ← index staticHeader 8
  let messageNonce ← expectArray messageNonceLength
    (← range staticHeader 9 (9 + messageNonceLength))
  let authDataSize ← expectArray 2
    (← range staticHeader (staticHeaderLength - 2) staticHeader.length)
  let authDataSize := ofBe authDataSize.bytes
  let remainingData ← range data (ivLength + staticHeaderLength) data.length
  if remainingData.length < authDataSize then .error (.err .invalidAuthDataSize) else do
  let authData ← range data (ivLength + staticHeaderLength)
    (ivLength + staticHeaderLength + authDataSize)
  let (authData, _) := cipher.applyKeystream authData
  let kind ← PacketKind.decode flag authData
  let message ← range data (ivLength + staticHeaderLength + authDataSize) data.length
  if message ≠ [] ∧ kind.isWhoareyou then .error (.err .unknownPacket) else do
  let iv' ← expectArray ivLength iv
  let header := { messageNonce, protocolIdentity, kind }
  .ok ({ iv := BitVec.ofNat 128 (ofBe iv'.bytes), header, message }, iv ++ staticHeader ++ authData)

def decode (srcId : NodeId) (protocolIdentity : ProtocolIdentity) (data : Bytes) :
    Result PacketError (Packet × Bytes) :=
  if maxPacketSize < data.length then .error (.err .tooLarge) else
  if data.length < minPacketSize then .error (.err .tooSmall) else do
  let iv ← range data 0 ivLength
  let cipher := StreamCipher.new (aes (srcId.raw.take 16) iv)
  let staticHeader ← range data ivLength (ivLength + staticHeaderLength)
  let (staticHeader, cipher) := cipher.applyKeystream staticHeader
  if staticHeader.length ≠ staticHeaderLength then
    .error (.err (.headerLengthInvalid staticHeader.length)) else do
  if (← range staticHeader 0 6) ≠ protocolIdentity.protocolId.bytes then
    .error (.err .headerDecryptionFailed) else do
  let versionBytes ← range staticHeader 6 8
  if versionBytes ≠ protocolIdentity.protocolVersion.bytes then do
    let version ← expectArray 2 versionBytes
    .error (.err (.invalidVersion (UInt16.ofNat (ofBe version.bytes))))
  else decodeRest protocolIdentity data iv staticHeader cipher

end Packet

end Discv5
