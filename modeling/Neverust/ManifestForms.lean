import Neverust.FolderManifest

/-!
# The forms of the messages

The messages of the manifests in the wire format of protocol buffers. They read back, so that the
codecs can be instantiated (`Prost.standard`).
-/

open Protobuf

/-! ## Strings -/

def utf8 (s : String) : Bytes := s.toUTF8.data.toList

def ofUtf8 (b : Bytes) : Option String := String.fromUTF8? ⟨b.toArray⟩

theorem ofUtf8_utf8 (s : String) : ofUtf8 (utf8 s) = some s := by
  rw [ofUtf8, utf8, Array.toArray_toList]
  exact dif_pos s.isValidUTF8

namespace Manifest.Proto

def DagPbNode.encode (m : DagPbNode) : Bytes := writeFields (blobField 1 m.data)

def DagPbNode.decode (b : Bytes) : Option DagPbNode := do
  let fs ← readFields b
  return { data := ← blob 1 fs }

theorem DagPbNode.decode_encode (m : DagPbNode) : decode m.encode = some m := by
  have hdata : blob 1 (blobField 1 m.data) = some m.data := blob_values (by simp)
  rw [decode, encode, readFields_writeFields]
  show (do return { data := ← blob 1 (blobField 1 m.data) } : Option DagPbNode) = _
  rw [hdata]
  rfl

def VerificationInfo.fields (m : VerificationInfo) : List Field :=
  blobField 1 m.verifyRoot ++ partFields 2 m.slotRoots ++ uintField 3 m.cellSize.toNat ++
    uintField 4 m.verifiableStrategy.toNat

def VerificationInfo.ofFields (fs : List Field) : Option VerificationInfo := do
  let verifyRoot ← blob 1 fs
  let slotRoots ← parts 2 fs
  let cellSize ← uint 3 fs
  let verifiableStrategy ← uint 4 fs
  return { verifyRoot, slotRoots, cellSize := .ofNat cellSize,
           verifiableStrategy := .ofNat verifiableStrategy }

theorem VerificationInfo.ofFields_fields (m : VerificationInfo) : ofFields m.fields = some m := by
  have h1 : blob 1 m.fields = some m.verifyRoot := blob_values (by simp [fields])
  have h2 : parts 2 m.fields = some m.slotRoots := parts_values (by simp [fields])
  have h3 : uint 3 m.fields = some m.cellSize.toNat := uint_values (by simp [fields])
  have h4 : uint 4 m.fields = some m.verifiableStrategy.toNat := uint_values (by simp [fields])
  simp [ofFields, h1, h2, h3, h4]

/-- A message in a field: the values under its tag are one message in pieces. -/
def ofParts {α : Type} (ofFields : List Field → Option α) (bs : List Bytes) : Option (Option α) :=
  if bs = [] then some none
  else do
    let fs ← readFields bs.flatten
    return some (← ofFields fs)

theorem ofParts_toList {α : Type} {ofFields : List Field → Option α} {fields : α → List Field}
    (h : ∀ a, ofFields (fields a) = some a) (a : Option α) :
    ofParts ofFields (a.map fun a => writeFields (fields a)).toList = some a := by
  cases a with
  | none => rfl
  | some a => simp [ofParts, readFields_writeFields, h]

def ErasureInfo.fields (m : ErasureInfo) : List Field :=
  uintField 1 m.ecK.toNat ++ uintField 2 m.ecM.toNat ++ blobField 3 m.originalTreeCid ++
    uintField 4 m.originalDatasetSize.toNat ++ uintField 5 m.protectedStrategy.toNat ++
    partFields 6 (m.verification.map fun v => writeFields v.fields).toList

def ErasureInfo.ofFields (fs : List Field) : Option ErasureInfo := do
  let ecK ← uint 1 fs
  let ecM ← uint 2 fs
  let originalTreeCid ← blob 3 fs
  let originalDatasetSize ← uint 4 fs
  let protectedStrategy ← uint 5 fs
  let verification ← ofParts VerificationInfo.ofFields (← parts 6 fs)
  return { ecK := .ofNat ecK, ecM := .ofNat ecM, originalTreeCid,
           originalDatasetSize := .ofNat originalDatasetSize,
           protectedStrategy := .ofNat protectedStrategy, verification }

theorem ErasureInfo.ofFields_fields (m : ErasureInfo) : ofFields m.fields = some m := by
  have h1 : uint 1 m.fields = some m.ecK.toNat := uint_values (by simp [fields])
  have h2 : uint 2 m.fields = some m.ecM.toNat := uint_values (by simp [fields])
  have h3 : blob 3 m.fields = some m.originalTreeCid := blob_values (by simp [fields])
  have h4 : uint 4 m.fields = some m.originalDatasetSize.toNat := uint_values (by simp [fields])
  have h5 : uint 5 m.fields = some m.protectedStrategy.toNat := uint_values (by simp [fields])
  have h6 : parts 6 m.fields = some (m.verification.map fun v => writeFields v.fields).toList :=
    parts_values (by simp [fields])
  simp [ofFields, h1, h2, h3, h4, h5, h6, ofParts_toList VerificationInfo.ofFields_fields]

def Header.fields (m : Header) : List Field :=
  blobField 1 m.treeCid ++ uintField 2 m.blockSize.toNat ++ uintField 3 m.datasetSize.toNat ++
    uintField 4 m.codec.toNat ++ uintField 5 m.hcodec.toNat ++ uintField 6 m.version.toNat ++
    partFields 7 (m.erasure.map fun e => writeFields e.fields).toList ++
    blobField 8 (utf8 m.filename) ++ blobField 9 (utf8 m.mimetype)

def Header.ofFields (fs : List Field) : Option Header := do
  let treeCid ← blob 1 fs
  let blockSize ← uint 2 fs
  let datasetSize ← uint 3 fs
  let codec ← uint 4 fs
  let hcodec ← uint 5 fs
  let version ← uint 6 fs
  let erasure ← ofParts ErasureInfo.ofFields (← parts 7 fs)
  let filename ← ofUtf8 (← blob 8 fs)
  let mimetype ← ofUtf8 (← blob 9 fs)
  return { treeCid, blockSize := .ofNat blockSize, datasetSize := .ofNat datasetSize,
           codec := .ofNat codec, hcodec := .ofNat hcodec, version := .ofNat version, erasure,
           filename, mimetype }

theorem Header.ofFields_fields (m : Header) : ofFields m.fields = some m := by
  have h1 : blob 1 m.fields = some m.treeCid := blob_values (by simp [fields])
  have h2 : uint 2 m.fields = some m.blockSize.toNat := uint_values (by simp [fields])
  have h3 : uint 3 m.fields = some m.datasetSize.toNat := uint_values (by simp [fields])
  have h4 : uint 4 m.fields = some m.codec.toNat := uint_values (by simp [fields])
  have h5 : uint 5 m.fields = some m.hcodec.toNat := uint_values (by simp [fields])
  have h6 : uint 6 m.fields = some m.version.toNat := uint_values (by simp [fields])
  have h7 : parts 7 m.fields = some (m.erasure.map fun e => writeFields e.fields).toList :=
    parts_values (by simp [fields])
  have h8 : blob 8 m.fields = some (utf8 m.filename) := blob_values (by simp [fields])
  have h9 : blob 9 m.fields = some (utf8 m.mimetype) := blob_values (by simp [fields])
  simp [ofFields, h1, h2, h3, h4, h5, h6, h7, h8, h9, ofUtf8_utf8,
    ofParts_toList ErasureInfo.ofFields_fields]

end Manifest.Proto

namespace FolderManifest.Proto

def DirectoryEntryProto.fields (m : DirectoryEntryProto) : List Field :=
  blobField 1 (utf8 m.name) ++ blobField 2 m.cid ++ uintField 3 m.size.toNat ++
    uintField 4 m.isDirectory.toNat ++ blobField 5 (utf8 m.mimetype)

def DirectoryEntryProto.ofFields (fs : List Field) : Option DirectoryEntryProto := do
  let name ← ofUtf8 (← blob 1 fs)
  let cid ← blob 2 fs
  let size ← uint 3 fs
  let isDirectory ← uint 4 fs
  let mimetype ← ofUtf8 (← blob 5 fs)
  return { name, cid, size := .ofNat size, isDirectory := .ofNat isDirectory, mimetype }

theorem DirectoryEntryProto.ofFields_fields (m : DirectoryEntryProto) :
    ofFields m.fields = some m := by
  have h1 : blob 1 m.fields = some (utf8 m.name) := blob_values (by simp [fields])
  have h2 : blob 2 m.fields = some m.cid := blob_values (by simp [fields])
  have h3 : uint 3 m.fields = some m.size.toNat := uint_values (by simp [fields])
  have h4 : uint 4 m.fields = some m.isDirectory.toNat := uint_values (by simp [fields])
  have h5 : blob 5 m.fields = some (utf8 m.mimetype) := blob_values (by simp [fields])
  simp [ofFields, h1, h2, h3, h4, h5, ofUtf8_utf8]

def DirectoryHeader.fields (m : DirectoryHeader) : List Field :=
  partFields 1 (m.entries.map fun e => writeFields e.fields) ++ uintField 2 m.totalSize.toNat ++
    blobField 3 (utf8 m.name)

def readEntry (b : Bytes) : Option DirectoryEntryProto :=
  (readFields b).bind DirectoryEntryProto.ofFields

def DirectoryHeader.ofFields (fs : List Field) : Option DirectoryHeader := do
  let entries ← (← parts 1 fs).mapM readEntry
  let totalSize ← uint 2 fs
  let name ← ofUtf8 (← blob 3 fs)
  return { entries, totalSize := .ofNat totalSize, name }

theorem readEntries_writeFields :
    ∀ es : List DirectoryEntryProto,
      (es.map fun e => writeFields e.fields).mapM readEntry = some es
  | [] => rfl
  | e :: es => by
    rw [List.map_cons, List.mapM_cons, readEntries_writeFields es]
    simp [readEntry, readFields_writeFields, DirectoryEntryProto.ofFields_fields]

theorem DirectoryHeader.ofFields_fields (m : DirectoryHeader) : ofFields m.fields = some m := by
  have h1 : parts 1 m.fields = some (m.entries.map fun e => writeFields e.fields) :=
    parts_values (by simp [fields])
  have h2 : uint 2 m.fields = some m.totalSize.toNat := uint_values (by simp [fields])
  have h3 : blob 3 m.fields = some (utf8 m.name) := blob_values (by simp [fields])
  rw [ofFields, h1, Option.bind_eq_bind, Option.bind_some, readEntries_writeFields]
  simp [h2, h3, ofUtf8_utf8]

end FolderManifest.Proto

namespace Prost

/-- The codec of a message that is given by its fields. -/
def ofFields {α : Type} (fields : α → List Field) (read : List Field → Option α)
    (h : ∀ a, read (fields a) = some a) : Codec α where
  encode a := writeFields (fields a)
  decode b := (readFields b).bind read
  decode_encode a := by rw [readFields_writeFields]; exact h a

open Manifest.Proto FolderManifest.Proto in
def standard : Prost where
  node := { encode := DagPbNode.encode, decode := DagPbNode.decode,
            decode_encode := DagPbNode.decode_encode }
  header := ofFields Header.fields Header.ofFields Header.ofFields_fields
  directory :=
    ofFields DirectoryHeader.fields DirectoryHeader.ofFields DirectoryHeader.ofFields_fields

end Prost
