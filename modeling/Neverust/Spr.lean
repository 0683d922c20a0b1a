import Neverust.Lib.Protobuf

/-!
# Signed peer records in Archivist's format

A record is an envelope (the public key, two bytes, the peer records, the signatures) on a line of
text, in base64 after `spr:`. `parseSprRecords` and `parseSprRecordsFull` read the records of a
text, `generateSpr` writes the record of this node.

The crates are parameters: base64, `prost`'s decoders, the keys and the addresses of libp2p.
-/

namespace Spr

open Protobuf

inductive SprError
  | base64 (msg : String)
  | protobuf (msg : String)
  | invalidPeerId (msg : String)
  | invalidMultiaddr (msg : String)
  | signature (msg : String)
  | encoding (msg : String)
  deriving Repr, DecidableEq

/-! ## Messages -/

/-- A field of type `optional bytes`. -/
def optFields (tag : Nat) (b : Option Bytes) : List Field := partFields tag b.toList

@[simp] theorem values_optFields (tag tag' : Nat) (b : Option Bytes) :
    values tag (optFields tag' b) = if tag' = tag then b.toList.map .bytes else [] :=
  values_partFields tag tag' b.toList

structure ArchivistSpr where
  peerId : Option Bytes
  seqBytes : Option Bytes
  peerRecord : List Bytes
  signature : List Bytes
  deriving Repr, DecidableEq

structure PeerInfo where
  peerId : Option Bytes
  seq : UInt64
  addrs : List Bytes
  deriving Repr, DecidableEq

structure AddrWrapper where
  addr : Option Bytes
  deriving Repr, DecidableEq

def ArchivistSpr.encode (s : ArchivistSpr) : Bytes :=
  writeFields (optFields 1 s.peerId ++ optFields 2 s.seqBytes ++ partFields 3 s.peerRecord ++
    partFields 5 s.signature)

def PeerInfo.encode (p : PeerInfo) : Bytes :=
  writeFields (optFields 1 p.peerId ++ uintField 2 p.seq.toNat ++ partFields 3 p.addrs)

def AddrWrapper.encode (a : AddrWrapper) : Bytes := writeFields (optFields 1 a.addr)

/-! ## Reading records -/

/-- The crates the records are read with: `K` are public keys, `P` peer ids and `A` addresses. -/
structure Crates (K P A : Type) where
  /-- `URL_SAFE_NO_PAD.decode`. -/
  decode64 : List Char → Except String Bytes
  decodeSpr : Bytes → Except String ArchivistSpr
  decodePeerInfo : Bytes → Except String PeerInfo
  decodeAddrWrapper : Bytes → Except String AddrWrapper
  /-- `PublicKey::try_decode_protobuf`. -/
  decodeKey : Bytes → Except String K
  /-- `try_into_secp256k1` and `to_bytes`. -/
  secp256k1 : K → Option Bytes
  toPeerId : K → P
  /-- `Multiaddr::try_from`. -/
  multiaddr : Bytes → Except String A

/-- `str::lines`, with the characters of the current line before it in reverse order. -/
def linesFrom : List Char → List Char → List (List Char)
  | [], [] => []
  | line, [] => [line.reverse]
  | '\r' :: line, '\n' :: text => line.reverse :: linesFrom [] text
  | line, '\n' :: text => line.reverse :: linesFrom [] text
  | line, c :: text => linesFrom (c :: line) text

def lines (text : List Char) : List (List Char) := linesFrom [] text

/-- `line.strip_prefix("spr:")`. -/
def stripSpr : List Char → Option (List Char)
  | 's' :: 'p' :: 'r' :: ':' :: sprData => some sprData
  | _ => none

variable {K P A : Type}

/-- The addresses of all peer records; what does not decode is left out. -/
def recordAddrs (c : Crates K P A) (spr : ArchivistSpr) : List A :=
  spr.peerRecord.flatMap fun peerRecordBytes =>
    match c.decodePeerInfo peerRecordBytes with
    | .error _ => []
    | .ok peerInfo =>
      peerInfo.addrs.filterMap fun addrBytes =>
        match c.decodeAddrWrapper addrBytes with
        | .error _ => none
        | .ok wrapper =>
          match wrapper.addr with
          | none => none
          | some rawAddr => (c.multiaddr rawAddr).toOption

/-- The envelope in the text and its public key. -/
def openSpr (c : Crates K P A) (sprBase64 : List Char) : Except SprError (ArchivistSpr × K) := do
  let bytes ← (c.decode64 sprBase64).mapError .base64
  let spr ← (c.decodeSpr bytes).mapError .protobuf
  let peerIdBytes ←
    match spr.peerId with
    | some b => pure b
    | none => throw (.protobuf "Missing peer_id")
  let publicKey ← (c.decodeKey peerIdBytes).mapError .invalidPeerId
  return (spr, publicKey)

def parseSingleSpr (c : Crates K P A) (sprBase64 : List Char) : Except SprError (P × List A) := do
  let (spr, publicKey) ← openSpr c sprBase64
  let peerId := c.toPeerId publicKey
  return (peerId, recordAddrs c spr)

structure SprRecord (P A : Type) where
  peerId : P
  addrs : List A
  secp256k1Pubkey : Option Bytes
  deriving DecidableEq

def parseSingleSprFull (c : Crates K P A) (sprBase64 : List Char) :
    Except SprError (SprRecord P A) := do
  let (spr, publicKey) ← openSpr c sprBase64
  let secp256k1Pubkey := c.secp256k1 publicKey
  let peerId := c.toPeerId publicKey
  return { peerId, addrs := recordAddrs c spr, secp256k1Pubkey }

/-- The results of the lines that parse; the others are logged. -/
def parseLines {α : Type} (parse : List Char → Except SprError α) (sprText : List Char) : List α :=
  (lines sprText).filterMap fun line =>
    match stripSpr line with
    | some sprData => (parse sprData).toOption
    | none => none

def parseSprRecords (c : Crates K P A) (sprText : List Char) :
    Except SprError (List (P × List A)) :=
  .ok (parseLines (parseSingleSpr c) sprText)

def parseSprRecordsFull (c : Crates K P A) (sprText : List Char) :
    Except SprError (List (SprRecord P A)) :=
  .ok (parseLines (parseSingleSprFull c) sprText)

/-! ## Writing a record -/

/-- A keypair of libp2p: the protobuf encoding of its public key, and `Keypair::sign`. -/
structure Keypair where
  publicKey : Bytes
  sign : Bytes → Except String Bytes

/-- `(seq as u16).to_be_bytes()`. -/
def seqBytes (seq : UInt64) : Bytes := [UInt8.ofNat (seq.toNat / 256), UInt8.ofNat seq.toNat]

/-- The peer record of `generate_spr`, which it signs as it is. -/
def peerInfoBytes (keypair : Keypair) (addrs : List Bytes) (seq : UInt64) : Bytes :=
  PeerInfo.encode
    { peerId := some keypair.publicKey, seq,
      addrs := addrs.map fun addr => AddrWrapper.encode { addr := some addr } }

/-- The envelope `generate_spr` serialises. -/
def sprEnvelope (keypair : Keypair) (addrs : List Bytes) (seq : UInt64) :
    Except SprError Bytes := do
  let sprUnsigned : ArchivistSpr :=
    { peerId := some keypair.publicKey, seqBytes := some (seqBytes seq),
      peerRecord := [peerInfoBytes keypair addrs seq], signature := [] }
  let signature ← (keypair.sign (peerInfoBytes keypair addrs seq)).mapError fun e =>
    .signature s!"Failed to sign: {e}"
  return ArchivistSpr.encode { sprUnsigned with signature := [signature] }

/-- `generate_spr`. `encode64` is the URL-safe base64 without padding. -/
def generateSpr (encode64 : Bytes → String) (keypair : Keypair) (addrs : List Bytes)
    (seq : UInt64) : Except SprError String := do
  let finalBytes ← sprEnvelope keypair addrs seq
  return "spr:" ++ encode64 finalBytes

end Spr
