import Neverust.Api.Types
import Neverust.Api.Upload

/-!
# Downloads (`api.rs`)

`retrieve_local_cid_data`: the data of a block, or of the dataset that a manifest describes. The
CID of the dataset's block list is in the manifest's filename.
-/

namespace Api

open Rust Storage Request

/-- What follows the tag in a filename. -/
def stripTag (s : String) : Option String :=
  if metadataTag.toList.isPrefixOf s.toList then
    some (String.ofList (s.toList.drop metadataTag.toList.length))
  else none

def metadataCidFromManifest (cr : Crates) (m : Manifest) : Option Cid :=
  (m.filename.bind stripTag).bind cr.cidOfString

section
variable (cr : Crates) (px : Prost)

/-- The data of the blocks, in order. -/
def assemble (blockCids : List Cid) : Handler Bytes :=
  blockCids.foldlM
    (fun data blockCid => do
      let text := cr.cidToString blockCid
      let b ← getBlock s!"manifest block {text} not found" (.fetchBlock blockCid) blockCid
      return data ++ b.data)
    []

/-- `retrieve_local_cid_data`. -/
def retrieveLocalCidData (cid : Cid) (cidStr : String) : Handler Bytes := do
  let block ← getBlock cidStr .retrieveBlock cid
  if cid.codec = Manifest.manifestCodec then
    let manifest ← liftM (wrap (fun e => ApiError.internal (.decodeManifest e))
      (Manifest.fromBlock cr px block))
    match metadataCidFromManifest cr manifest with
    | none => liftM (.error (.err (.internal .missingMetadata)) : Result ApiError _)
    | some metadataCid =>
      let metadataBlock ← getBlock s!"metadata for manifest {cidStr} not found"
        (.fetchMetadata metadataCid) metadataCid
      let blockCids ← liftM (wrapCall (fun e => ApiError.internal (.deserializeMetadata e))
        (Tree.deserializeBlockList cr metadataBlock.data))
      let expected ← liftM (manifest.blocksCount : Result ApiError Nat)
      if blockCids.length ≠ expected then
        liftM (.error (.err (.internal (.countMismatch blockCids.length expected)))
          : Result ApiError _)
      else do
        liftM (withCapacity manifest.datasetSize.toNat : Result ApiError Unit)
        let data ← assemble cr blockCids
        if data.length ≠ manifest.datasetSize.toNat then
          liftM (.error (.err (.internal (.sizeMismatch data.length manifest.datasetSize.toNat)))
            : Result ApiError _)
        else return data
  else return block.data

end

end Api
