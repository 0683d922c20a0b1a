import Neverust.Api.Download

/-!
# Range requests (`api.rs`)

`parse_range_header` reads the header of a range request. `retrieve_manifest_range` reads the blocks
of a dataset that a range overlaps, and `archivist_download_local` answers a download with or
without a range. A range is given by its start and by the first position after it.
-/

namespace Api

open Rust Storage Request

/-! ## The header -/

/-- `char::is_whitespace`. -/
def isWhitespace (c : Char) : Bool :=
  let n := c.val.toNat
  (9 ≤ n && n ≤ 13) || (8192 ≤ n && n ≤ 8202) ||
    [32, 133, 160, 5760, 8232, 8233, 8239, 8287, 12288].contains n

/-- `str::trim`. -/
def trim (s : List Char) : List Char :=
  ((s.dropWhile isWhitespace).reverse.dropWhile isWhitespace).reverse

/-- The number that decimal digits denote. -/
def ofDigits (s : List Char) : Nat := s.foldl (fun n c => 10 * n + (c.val.toNat - 48)) 0

def stripPlus : List Char → List Char
  | '+' :: rest => rest
  | s => s

/-- `str::parse::<usize>`: a plus sign may come before the digits. -/
def parseUsize (s : List Char) : Option Nat :=
  if stripPlus s ≠ [] ∧ (stripPlus s).all Char.isDigit ∧ ofDigits (stripPlus s) < usizeSize then
    some (ofDigits (stripPlus s))
  else none

/-- The unit of the header. -/
def rangeUnit : List Char := "bytes=".toList

/-- What follows the unit. -/
def stripUnit (s : List Char) : Option (List Char) :=
  if rangeUnit.isPrefixOf s then some (s.drop rangeUnit.length) else none

/-- The end of a range; that of the header is the last position of the range. -/
def parseEnd {ε : Type} (last : List Char) (totalSize : Nat) : Result ε (Option Nat) :=
  if last = [] then .ok (some totalSize)
  else
    match parseUsize last with
    | none => .ok none
    | some n => do
      let e ← usizeAdd n 1
      return some e

/-- The check of a range, and its end cut off. -/
def checkRange (start «end» totalSize : Nat) : Option (Nat × Nat) :=
  if totalSize ≤ start ∨ «end» ≤ start then none else some (start, min «end» totalSize)

/-- `parse_range_header`. -/
def parseRangeHeader {ε : Type} (rangeStr : String) (totalSize : Nat) :
    Result ε (Option (Nat × Nat)) :=
  match stripUnit (trim rangeStr.toList) with
  | none => .ok none
  | some s =>
    match s.splitOn '-' with
    | [first, last] =>
      match parseUsize first with
      | none => .ok none
      | some start => do
        match ← parseEnd last totalSize with
        | none => return none
        | some e => return checkRange start e totalSize
    | _ => .ok none

/-! ## The answers -/

/-- The answer to a download. -/
inductive Response
  | full (data : Bytes)
  | partialContent (start endInclusive totalSize : Nat) (data : Bytes)
  | rangeNotSatisfiable (totalSize : Nat)
  deriving Repr, DecidableEq

/-- `build_range_response`. -/
def buildRangeResponse (range : Option String) (data : Bytes) : Result ApiError Response :=
  match range with
  | none => .ok (.full data)
  | some rangeStr => do
    match ← parseRangeHeader rangeStr data.length with
    | none => return .rangeNotSatisfiable data.length
    | some (start, endExclusive) =>
      let slice ← Rust.range data start endExclusive
      let endInclusive ← usizeSub endExclusive 1
      return .partialContent start endInclusive data.length slice

section
variable (cr : Crates) (px : Prost)

/-- The part of the `idx`-th block that a range overlaps. -/
def readPart (blockSize firstBlock lastBlock rangeStart rangeEnd : Nat) (blockCids : List Cid)
    (data : Bytes) (idx : Nat) : Handler Bytes := do
  let blockCid ← liftM (index blockCids idx : Result ApiError Cid)
  let text := cr.cidToString blockCid
  let block ← getBlock s!"manifest block {text} not found" (.fetchBlock blockCid) blockCid
  let blockStartByte ← liftM (usizeMul idx blockSize : Result ApiError Nat)
  let sliceStart ← liftM (if idx = firstBlock then usizeSub rangeStart blockStartByte else .ok 0
    : Result ApiError Nat)
  let sliceEnd ← liftM (if idx = lastBlock then do
      let n ← usizeSub rangeEnd blockStartByte
      return min n block.data.length
    else .ok block.data.length : Result ApiError Nat)
  let slice ← liftM (Rust.range block.data sliceStart sliceEnd : Result ApiError Bytes)
  return data ++ slice

/-- `retrieve_manifest_range`. -/
def retrieveManifestRange (manifest : Manifest) (blockCids : List Cid)
    (rangeStart rangeEnd : Nat) : Handler Bytes := do
  let blockSize := manifest.blockSize.toNat
  let firstBlock ← liftM (usizeDiv rangeStart blockSize : Result ApiError Nat)
  let endInclusive ← liftM (usizeSub rangeEnd 1 : Result ApiError Nat)
  let lastBlock ← liftM (usizeDiv endInclusive blockSize : Result ApiError Nat)
  let capacity ← liftM (usizeSub rangeEnd rangeStart : Result ApiError Nat)
  liftM (withCapacity capacity : Result ApiError Unit)
  let lastIdx ← liftM (usizeSub blockCids.length 1 : Result ApiError Nat)
  (List.range' firstBlock (min lastBlock lastIdx + 1 - firstBlock)).foldlM
    (readPart cr blockSize firstBlock lastBlock rangeStart rangeEnd blockCids) []

/-- `load_manifest_metadata`. -/
def loadManifestMetadata (cid : Cid) (cidStr : String) : Handler (Manifest × List Cid) := do
  let block ← getBlock cidStr .retrieveBlock cid
  let manifest ← liftM (wrap (fun e => ApiError.internal (.decodeManifest e))
    (Manifest.fromBlock cr px block))
  match metadataCidFromManifest cr manifest with
  | none => liftM (.error (.err (.internal .missingMetadata)) : Result ApiError _)
  | some metadataCid =>
    let metadataBlock ← getBlock s!"metadata for manifest {cidStr} not found"
      (.fetchMetadata metadataCid) metadataCid
    let blockCids ← liftM (wrapCall (fun e => ApiError.internal (.deserializeMetadata e))
      (Tree.deserializeBlockList cr metadataBlock.data))
    return (manifest, blockCids)

/-- The part of `archivist_download_local` for a manifest. -/
def downloadManifest (cid : Cid) (cidStr : String) (range : Option String) : Handler Response := do
  let (manifest, blockCids) ← loadManifestMetadata cr px cid cidStr
  let totalSize := manifest.datasetSize.toNat
  match range with
  | some rangeStr =>
    match ← liftM (parseRangeHeader rangeStr totalSize : Result ApiError _) with
    | some (start, endExclusive) =>
      let data ← retrieveManifestRange cr manifest blockCids start endExclusive
      let endInclusive ← liftM (usizeSub endExclusive 1 : Result ApiError Nat)
      return .partialContent start endInclusive totalSize data
    | none => return .rangeNotSatisfiable totalSize
  | none =>
    let data ← retrieveLocalCidData cr px cid cidStr
    return .full data

/-- `archivist_download_local` for a CID that is not that of a directory. -/
def archivistDownloadLocal (cid : Cid) (cidStr : String) (range : Option String) :
    Handler Response := do
  if cid.codec = Manifest.manifestCodec then
    downloadManifest cr px cid cidStr range
  else
    let data ← retrieveLocalCidData cr px cid cidStr
    liftM (buildRangeResponse range data)

end

end Api
