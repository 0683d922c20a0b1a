import Neverust.Api.Download

/-!
# Content from peers, and its removal (`api.rs`)

`fetch_cid_from_peers` asks the fallback peers over HTTP, one after the other. A download and the
background task of a pin call it when the store lacks the content. `archivist_delete` and an unpin
remove content.
-/

namespace Api

open Rust Storage Request

/-- What a peer answers to a request over HTTP. -/
inductive PeerAnswer
  | failed
  | status (code : Nat)
  | unreadable
  | body (data : Bytes)
  deriving Repr, DecidableEq

section
variable (cr : Crates) (px : Prost)

/-- The content a peer sent, stored under the CID unless that is the CID of a manifest. -/
def acceptBody (cid : Cid) (data : Bytes) : Handler Bytes :=
  if cid.codec ≠ Manifest.manifestCodec then do
    let block ← liftM (wrap (fun e => ApiError.internal (.createBlock e))
      (Block.fromCidAndData cr cid data))
    putMany .storeBlock [block]
    return data
  else return data

/-- The loop over the peers. -/
def tryPeers (cid : Cid) (cidStr : String) : List PeerAnswer → Handler Bytes
  | [] => liftM (.error (.err (.notFound cidStr)) : Result ApiError _)
  | .body data :: _ => acceptBody cr cid data
  | _ :: rest => tryPeers cid cidStr rest

/-- `fetch_cid_from_peers`; `peers` has the answers of the peers in the order they are asked. -/
def fetchCidFromPeers (cid : Cid) (cidStr : String) (peers : List PeerAnswer) : Handler Bytes :=
  tryPeers cr cid cidStr (peers.take 25)

/-- `archivist_download` without a range: local content first, then the peers. -/
def archivistDownload (cid : Cid) (cidStr : String) (peers : List PeerAnswer) : Handler Bytes := do
  match ← (retrieveLocalCidData cr px cid cidStr).attempt with
  | .ok data => pure data
  | .error (.err (.notFound _)) => fetchCidFromPeers cr cid cidStr peers
  | .error e => liftM (.error e : Result ApiError _)

/-- The errors of `ensure_pin_locally`. -/
inductive PinError
  | invalidCid (cidStr : String)
  | fetch (e : ApiError)
  | notPersisted
  deriving Repr, DecidableEq

/-- `ensure_pin_locally`. -/
def ensurePinLocally (cidStr : String) (peers : List PeerAnswer) : Handler (Except PinError Unit) :=
  match cr.cidOfString cidStr with
  | none => pure (.error (.invalidCid cidStr))
  | some cid => do
    if ← storeCall (.has cid) then
      return .ok ()
    match ← (fetchCidFromPeers cr cid cidStr peers).attempt with
    | .error (.err e) => return .error (.fetch e)
    | .error e => liftM (.error e : Result ApiError _)
    | .ok _ =>
      if ← storeCall (.has cid) then
        return .ok ()
      else
        return .error .notPersisted

/-! ## Removal -/

/-- `let _ = block_store.delete(cid)`. -/
def deleteQuietly (cid : Cid) : Handler Unit := do
  let _ ← storeCall (.delete cid)
  return ()

/-- The blocks of a dataset, given the CID of its block list. -/
def deleteBlocks (metadataCid : Cid) : Handler Unit := do
  match ← storeCall (.get metadataCid) with
  | .error _ => pure ()
  | .ok metadataBlock =>
    match Tree.deserializeBlockList cr metadataBlock.data with
    | .ok blockCids => blockCids.foldlM (fun _ blockCid => deleteQuietly blockCid) ()
    | .error (.err _) => pure ()
    | .error (.panic p) => liftM (.error (.panic p) : Result ApiError _)
    | .error .fuel => liftM (.error .fuel : Result ApiError _)

/-- The parts of the dataset that a manifest describes. -/
def deleteDataset (cid : Cid) : Handler Unit := do
  match ← storeCall (.get cid) with
  | .error _ => pure ()
  | .ok manifestBlock =>
    match Manifest.fromBlock cr px manifestBlock with
    | .error _ => pure ()
    | .ok manifest =>
      match metadataCidFromManifest cr manifest with
      | none => pure ()
      | some metadataCid =>
        deleteBlocks cr metadataCid
        deleteQuietly metadataCid

/-- `archivist_delete`. -/
def archivistDelete (cid : Cid) : Handler Unit := do
  if cid.codec = Manifest.manifestCodec then
    deleteDataset cr px cid
  deleteQuietly cid

end

end Api
