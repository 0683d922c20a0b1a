import Neverust.Lib.Protobuf
import Neverust.Lib.Rust
import Neverust.Storage.Block

/-!
# Dataset manifests (`manifest.rs`)

A manifest describes a dataset. It is a protobuf header in a dag-pb node, and it is stored as a
block with the manifest codec. The messages that `prost` derives a codec for are records here, and
the codecs are a parameter (`Prost`).
-/

open Multiformats Storage

/-! ## Messages -/

namespace Manifest.Proto

structure DagPbNode where
  data : Bytes
  deriving Repr, DecidableEq

structure VerificationInfo where
  verifyRoot : Bytes
  slotRoots : List Bytes
  cellSize : UInt32
  verifiableStrategy : UInt32
  deriving Repr, DecidableEq

structure ErasureInfo where
  ecK : UInt32
  ecM : UInt32
  originalTreeCid : Bytes
  originalDatasetSize : UInt64
  protectedStrategy : UInt32
  verification : Option VerificationInfo
  deriving Repr, DecidableEq

structure Header where
  treeCid : Bytes
  blockSize : UInt32
  datasetSize : UInt64
  codec : UInt32
  hcodec : UInt32
  version : UInt32
  erasure : Option ErasureInfo
  filename : String
  mimetype : String
  deriving Repr, DecidableEq

end Manifest.Proto

namespace FolderManifest.Proto

structure DirectoryEntryProto where
  name : String
  cid : Bytes
  size : UInt64
  isDirectory : UInt32
  mimetype : String
  deriving Repr, DecidableEq

structure DirectoryHeader where
  entries : List DirectoryEntryProto
  totalSize : UInt64
  name : String
  deriving Repr, DecidableEq

end FolderManifest.Proto

/-- The codecs of the messages. Encoding into a vector that grows does not fail. -/
structure Prost where
  node : Codec Manifest.Proto.DagPbNode
  header : Codec Manifest.Proto.Header
  directory : Codec FolderManifest.Proto.DirectoryHeader

/-! ## Manifests -/

inductive ManifestError
  | decodeError
  | cidError (msg : String)
  | invalidManifest (msg : String)
  deriving Repr, DecidableEq

inductive StrategyType
  | steppedStrategy
  | linearStrategy
  deriving Repr, DecidableEq

/-- `strategy as u32`. -/
def StrategyType.toU32 : StrategyType → UInt32
  | .steppedStrategy => 0
  | .linearStrategy => 1

/-- `StrategyType::from`: an unknown number is the stepped strategy. -/
def StrategyType.ofU32 (value : UInt32) : StrategyType :=
  if value = 0 then .steppedStrategy
  else if value = 1 then .linearStrategy
  else .steppedStrategy

structure VerificationInfo where
  verifyRoot : Cid
  slotRoots : List Cid
  cellSize : UInt64
  verifiableStrategy : StrategyType
  deriving Repr, DecidableEq

structure ErasureInfo where
  ecK : UInt32
  ecM : UInt32
  originalTreeCid : Cid
  originalDatasetSize : UInt64
  protectedStrategy : StrategyType
  verification : Option VerificationInfo
  deriving Repr, DecidableEq

structure Manifest where
  treeCid : Cid
  blockSize : UInt64
  datasetSize : UInt64
  codec : UInt64
  hcodec : UInt64
  version : UInt32
  filename : Option String
  mimetype : Option String
  erasure : Option ErasureInfo
  deriving Repr, DecidableEq

namespace Manifest

def manifestCodec : UInt64 := 0xcd01
def blockCodec : UInt64 := 0xcd02
def sha256Codec : UInt64 := 0x12
def blake3Codec : UInt64 := 0x1e

/-- `Manifest::new`. -/
def new (treeCid : Cid) (blockSize datasetSize : UInt64) (codec hcodec : Option UInt64)
    (version : Option UInt32) (filename mimetype : Option String) : Manifest where
  treeCid
  blockSize
  datasetSize
  codec := codec.getD blockCodec
  hcodec := hcodec.getD blake3Codec
  version := version.getD 1
  filename
  mimetype
  erasure := none

/-- `(dataset_size + block_size - 1) / block_size` on `u64`. -/
def blocksCount {ε : Type} (m : Manifest) : Rust.Result ε Nat :=
  if 2 ^ 64 ≤ m.datasetSize.toNat + m.blockSize.toNat then .error (.panic .overflow)
  else if m.datasetSize.toNat + m.blockSize.toNat = 0 then .error (.panic .overflow)
  else if m.blockSize = 0 then .error (.panic .divByZero)
  else .ok ((m.datasetSize.toNat + m.blockSize.toNat - 1) / m.blockSize.toNat)

section
variable (cr : Crates) (px : Prost)

def VerificationInfo.toProto (v : VerificationInfo) : Proto.VerificationInfo where
  verifyRoot := cr.cidToBytes v.verifyRoot
  slotRoots := v.slotRoots.map cr.cidToBytes
  cellSize := v.cellSize.toUInt32
  verifiableStrategy := v.verifiableStrategy.toU32

def ErasureInfo.toProto (e : ErasureInfo) : Proto.ErasureInfo where
  ecK := e.ecK
  ecM := e.ecM
  originalTreeCid := cr.cidToBytes e.originalTreeCid
  originalDatasetSize := e.originalDatasetSize
  protectedStrategy := e.protectedStrategy.toU32
  verification := e.verification.map (VerificationInfo.toProto cr)

/-- The header `encode` fills in; the sizes and codecs are cast to `u32`. -/
def toHeader (m : Manifest) : Proto.Header where
  treeCid := cr.cidToBytes m.treeCid
  blockSize := m.blockSize.toUInt32
  datasetSize := m.datasetSize
  codec := m.codec.toUInt32
  hcodec := m.hcodec.toUInt32
  version := m.version
  erasure := m.erasure.map (ErasureInfo.toProto cr)
  filename := m.filename.getD ""
  mimetype := m.mimetype.getD ""

def encode (m : Manifest) : Except ManifestError Bytes :=
  .ok (px.node.encode { data := px.header.encode (m.toHeader cr) })

/-- `Cid::try_from` with the text of its error; the crate's own text follows it. -/
def readCid (msg : String) (b : Bytes) : Except ManifestError Cid :=
  match cr.cidOfBytes b with
  | some cid => .ok cid
  | none => .error (.cidError msg)

def VerificationInfo.ofProto (v : Proto.VerificationInfo) :
    Except ManifestError VerificationInfo := do
  let verifyRoot ← readCid cr "Invalid verify root CID" v.verifyRoot
  let slotRoots ← v.slotRoots.mapM (readCid cr "Invalid slot root")
  return { verifyRoot, slotRoots, cellSize := v.cellSize.toUInt64,
           verifiableStrategy := .ofU32 v.verifiableStrategy }

def ErasureInfo.ofProto (e : Proto.ErasureInfo) : Except ManifestError ErasureInfo := do
  let originalTreeCid ← readCid cr "Invalid original tree CID" e.originalTreeCid
  let verification ← e.verification.mapM (VerificationInfo.ofProto cr)
  return { ecK := e.ecK, ecM := e.ecM, originalTreeCid,
           originalDatasetSize := e.originalDatasetSize,
           protectedStrategy := .ofU32 e.protectedStrategy, verification }

def ofHeader (h : Proto.Header) : Except ManifestError Manifest := do
  let treeCid ← readCid cr "Invalid tree CID" h.treeCid
  let erasure ← h.erasure.mapM (ErasureInfo.ofProto cr)
  return { treeCid, blockSize := h.blockSize.toUInt64, datasetSize := h.datasetSize,
           codec := h.codec.toUInt64, hcodec := h.hcodec.toUInt64, version := h.version,
           filename := if h.filename = "" then none else some h.filename,
           mimetype := if h.mimetype = "" then none else some h.mimetype,
           erasure }

def decode (data : Bytes) : Except ManifestError Manifest :=
  match px.node.decode data with
  | none => .error .decodeError
  | some pbNode =>
    match px.header.decode pbNode.data with
    | none => .error .decodeError
    | some header => ofHeader cr header

/-- The bytes of a CID: version, codec, hash code, the digest's length and the digest. -/
def cidBytes (version : UInt32) (codec hcodec : UInt64) (hashBytes : Bytes) : Bytes :=
  let multihash := varint hcodec.toNat ++ varint hashBytes.length ++ hashBytes
  varint version.toNat ++ varint codec.toNat ++ multihash

/-- The digest of the encoded manifest under its own hash codec. -/
def hashBytes (m : Manifest) (data : Bytes) : Except ManifestError Bytes :=
  if m.hcodec = blake3Codec then .ok (cr.blake3 data)
  else if m.hcodec = sha256Codec then .ok (cr.sha256 data)
  else
    let codec := CidBlake3.toHex m.hcodec.toNat
    .error (.invalidManifest s!"Unsupported manifest hash codec: 0x{codec}")

def toBlock (m : Manifest) : Except ManifestError Block := do
  let data ← m.encode cr px
  let hashBytes ← m.hashBytes cr data
  let cid ← readCid cr "Failed to create CID" (cidBytes m.version manifestCodec m.hcodec hashBytes)
  return { cid, data }

def fromBlock (block : Block) : Except ManifestError Manifest :=
  if block.cid.codec ≠ manifestCodec then
    let codec := CidBlake3.toHex block.cid.codec.toNat
    .error (.invalidManifest s!"Block has codec 0x{codec}, expected manifest codec 0xcd01")
  else decode cr px block.data

end

end Manifest
