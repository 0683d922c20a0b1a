import Neverust.Manifest

/-!
# Directory manifests (`folder_manifest.rs`)

A directory lists named entries, each with the CID of a file's manifest or of another directory.
-/

open Rust Storage

namespace FolderManifest

def directoryCodec : UInt64 := 0xcd04

inductive DirectoryManifestError
  | decodeError
  | cidError (msg : String)
  | invalidManifest (msg : String)
  deriving Repr, DecidableEq

structure DirectoryEntry where
  name : String
  cid : Cid
  size : UInt64
  isDirectory : Bool
  mimetype : String
  deriving Repr, DecidableEq

structure DirectoryManifest where
  entries : List DirectoryEntry
  totalSize : UInt64
  name : String
  deriving Repr, DecidableEq

section
variable (cr : Crates) (px : Prost)

def DirectoryEntry.toProto (e : DirectoryEntry) : Proto.DirectoryEntryProto where
  name := e.name
  cid := cr.cidToBytes e.cid
  size := e.size
  isDirectory := if e.isDirectory then 1 else 0
  mimetype := e.mimetype

namespace DirectoryManifest

/-- `new`: the total size is the sum of the sizes of the entries. -/
def new {ε : Type} (entries : List DirectoryEntry) (name : String) :
    Result ε DirectoryManifest := do
  let totalSize ← entries.foldlM
    (fun sum e =>
      match checkedAdd64 sum e.size.toNat with
      | some sum => .ok sum
      | none => .error (.panic .overflow))
    0
  return { entries, totalSize, name }

def encode (d : DirectoryManifest) : Except DirectoryManifestError Bytes :=
  .ok (px.directory.encode
    { entries := d.entries.map (DirectoryEntry.toProto cr), totalSize := d.totalSize,
      name := d.name })

def readEntry (e : Proto.DirectoryEntryProto) : Except DirectoryManifestError DirectoryEntry :=
  match cr.cidOfBytes e.cid with
  | none => .error (.cidError "Invalid CID")
  | some cid =>
    .ok { name := e.name, cid, size := e.size, isDirectory := e.isDirectory ≠ 0,
          mimetype := e.mimetype }

def decode (data : Bytes) : Except DirectoryManifestError DirectoryManifest :=
  match px.directory.decode data with
  | none => .error .decodeError
  | some header => do
    let entries ← header.entries.mapM (readEntry cr)
    return { entries, totalSize := header.totalSize, name := header.name }

/-- `to_block`: always SHA-256 and version 1. -/
def toBlock (d : DirectoryManifest) : Except DirectoryManifestError Block := do
  let data ← d.encode cr px
  let hashBytes := cr.sha256 data
  match cr.cidOfBytes (Manifest.cidBytes 1 directoryCodec Manifest.sha256Codec hashBytes) with
  | some cid => return { cid, data }
  | none => throw (.cidError "Failed to create CID")

def fromBlock (block : Block) : Except DirectoryManifestError DirectoryManifest :=
  if block.cid.codec ≠ directoryCodec then
    let codec := CidBlake3.toHex block.cid.codec.toNat
    .error (.invalidManifest s!"Block has codec 0x{codec}, expected directory codec 0xcd04")
  else decode cr px block.data

end DirectoryManifest

end

end FolderManifest
