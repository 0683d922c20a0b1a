import Neverust.Api.Types

/-!
# Uploads (`api.rs`)

`archivist_upload` cuts the body into blocks as its chunks arrive and stores the blocks in batches.
With deduplication each batch is stored before the next chunk is read, and a block whose CID was
seen is not stored again. Without it a batch is a task, and the CIDs of a task that ends are put
into slots. The tree over the CIDs gives the manifest, whose CID is returned.
-/

namespace Api

open Rust Storage Request

/-- The settings of an upload, read from the environment. The handler reserves a block and the slots
of a batch at its start, which panics if `blockSize` or 24 times `commitBatchBlocks` is above
`isize::MAX`; that is left out. -/
structure UploadConfig where
  blockSize : Nat
  commitBatchBlocks : Nat
  dedupeBlocks : Bool
  hashWorkers : Nat
  inflightBatches : Nat
  deriving Repr, DecidableEq

/-! ## Hashing -/

section
variable (cr : Crates)

def hashBlock (data : Bytes) : Except HashFailure Block :=
  (Block.newSha256 cr data).mapError .block

/-- The raw blocks with their indices, dealt out to the workers in turn. -/
def dealLanes (workerCount : Nat) (rawBlocks : List Bytes) : List (List (Nat × Bytes)) :=
  rawBlocks.zipIdx.foldl
    (fun lanes p => lanes.modify (p.2 % workerCount) (· ++ [(p.2, p.1)]))
    (List.replicate workerCount [])

def hashLane (lane : List (Nat × Bytes)) : Except HashFailure (List (Nat × Block)) :=
  lane.mapM fun p => do
    let block ← hashBlock cr p.2
    return (p.1, block)

/-- The results of a lane, each at its index. -/
def placeLane (ordered : List (Option Block)) (lane : List (Nat × Block)) : List (Option Block) :=
  lane.foldl (fun o p => o.set p.1 (some p.2)) ordered

def hashedBlock : Option Block → Except HashFailure Block
  | some block => .ok block
  | none => .error .missingResult

/-- `hash_raw_blocks_parallel`. The results of a worker depend on its lane only, and the workers
are joined in order, so their schedule does not matter. -/
def hashRawBlocksParallel (rawBlocks : List Bytes) (workers : Nat) :
    Except HashFailure (List Block) :=
  let total := rawBlocks.length
  if total = 0 then .ok []
  else
    let workerCount := min (max workers 1) total
    if workerCount = 1 then rawBlocks.mapM (hashBlock cr)
    else do
      let lanes ← (dealLanes workerCount rawBlocks).mapM (hashLane cr)
      let ordered := lanes.foldl placeLane (List.replicate total none)
      ordered.mapM hashedBlock

/-! ## Batches -/

/-- The variables of `archivist_upload`. `inflight` counts the tasks not yet waited for, and a hash
set is the list of its members. -/
structure UploadState where
  currentBlock : Bytes
  datasetSize : UInt64
  blockCids : List Cid
  blockCidSlots : List (Option Cid)
  rawBatch : List Bytes
  inflight : Nat
  nextBatchStartIdx : Nat
  seenCids : Option (List Cid)
  deriving Repr, DecidableEq

def UploadState.new (cfg : UploadConfig) : UploadState where
  currentBlock := []
  datasetSize := 0
  blockCids := []
  blockCidSlots := []
  rawBatch := []
  inflight := 0
  nextBatchStartIdx := 0
  seenCids := if cfg.dedupeBlocks then some [] else none

/-- The loop of `flush_upload_raw_batch`: the CIDs so far, those seen and the blocks to store. -/
def noteBlock (s : List Cid × Option (List Cid) × List Block) (block : Block) :
    List Cid × Option (List Cid) × List Block :=
  let (blockCids, seenCids, toStore) := s
  match seenCids with
  | some seen =>
    if block.cid ∈ seen then (blockCids ++ [block.cid], some seen, toStore)
    else (blockCids ++ [block.cid], some (block.cid :: seen), toStore ++ [block])
  | none => (blockCids ++ [block.cid], none, toStore ++ [block])

def flushUploadRawBatch (workers : Nat) (st : UploadState) : Handler UploadState :=
  if st.rawBatch = [] then pure st
  else do
    let blocks ← liftM (wrap (fun e => .internal (.hashBatch e))
      (hashRawBlocksParallel cr st.rawBatch workers))
    let (blockCids, seenCids, toStore) := blocks.foldl noteBlock (st.blockCids, st.seenCids, [])
    if toStore ≠ [] then
      putMany .storeBatch toStore
    return { st with rawBatch := [], blockCids, seenCids }

/-- The task of a batch. -/
def processUploadRawBatchNoDedupe (workers : Nat) (rawBatch : List Bytes) : Task :=
  if rawBatch = [] then pure []
  else do
    let blocks ← liftM (wrap (fun e => ApiError.internal (.hashBatch e))
      (hashRawBlocksParallel cr rawBatch workers))
    let r ← (Prog.request (.putMany blocks) : Prog StoreReq StoreAns _ _)
    liftM (wrap (fun e => ApiError.internal (.storeBatch e)) r)
    return blocks.map Block.cid

end

/-! ## Tasks that have ended -/

/-- The CIDs of a batch, in the slots from `startIdx` on. -/
def fillSlots (startIdx : Nat) (slots : List (Option Cid)) (cids : List Cid) :
    Result ApiError (List (Option Cid)) :=
  cids.zipIdx.foldlM
    (fun slots p => do
      let pos ← usizeAdd startIdx p.2
      if slots.length ≤ pos then .error (.err (.internal (.slotOutOfBounds pos slots.length)))
      else .ok (slots.set pos (some p.1)))
    slots

/-- The CID in a slot. -/
def slotCid : Option Cid → Result ApiError Cid
  | some cid => .ok cid
  | none => .error (.err (.internal .missingSlot))

/-- What is done with the result of a task. -/
def complete (st : UploadState) (startIdx expectedLen : Nat)
    (result : Except (Stop ApiError) (List Cid)) : Result ApiError UploadState :=
  match result with
  | .error (.err e) => .error (.err e)
  | .error _ => .error (.err (.internal .batchTask))
  | .ok cids =>
    if cids.length ≠ expectedLen then
      .error (.err (.internal (.cidCount expectedLen cids.length)))
    else do
      let blockCidSlots ← fillSlots startIdx st.blockCidSlots cids
      return { st with blockCidSlots, inflight := st.inflight - 1 }

/-- The wait for tasks while more than `maxInflight` are left, for at most `fuel` rounds. -/
def awaitOver (maxInflight : Nat) : Nat → UploadState → Handler UploadState
  | 0, st => if st.inflight ≤ maxInflight then pure st else liftM (.error .fuel : Result ApiError _)
  | fuel + 1, st =>
    if st.inflight ≤ maxInflight then pure st
    else do
      match ← ask .next with
      | none => liftM (.error (.err (.internal .pipelineEnded)) : Result ApiError _)
      | some (startIdx, expectedLen, result) =>
        let st ← liftM (complete st startIdx expectedLen result)
        awaitOver maxInflight fuel st

/-- The wait for all tasks at the end. -/
def drain : Nat → UploadState → Handler UploadState
  | 0, _ => liftM (.error .fuel : Result ApiError _)
  | fuel + 1, st => do
    match ← ask .next with
    | none => pure st
    | some (startIdx, expectedLen, result) =>
      let st ← liftM (complete st startIdx expectedLen result)
      drain fuel st

/-! ## The body -/

section
variable (cr : Crates) (cfg : UploadConfig)

def spawnBatch (st : UploadState) : Handler UploadState := do
  ask (.spawn st.nextBatchStartIdx st.rawBatch.length
    (processUploadRawBatchNoDedupe cr cfg.hashWorkers st.rawBatch))
  return { st with rawBatch := [], inflight := st.inflight + 1,
                   nextBatchStartIdx :=
                     min (st.nextBatchStartIdx + st.rawBatch.length) (usizeSize - 1) }

/-- The raw block that is complete goes into the batch. -/
def pushBlock (st : UploadState) : UploadState :=
  { st with rawBatch := st.rawBatch ++ [st.currentBlock], currentBlock := [],
            blockCidSlots :=
              if cfg.dedupeBlocks then st.blockCidSlots else st.blockCidSlots ++ [none] }

/-- More bytes for the current block. -/
def addBytes (st : UploadState) (bytes : Bytes) : UploadState :=
  let st := { st with currentBlock := st.currentBlock ++ bytes }
  if st.currentBlock.length = cfg.blockSize then pushBlock cfg st else st

def commitBatch (st : UploadState) : Handler UploadState :=
  if st.rawBatch.length ≥ cfg.commitBatchBlocks then
    if cfg.dedupeBlocks then flushUploadRawBatch cr cfg.hashWorkers st
    else do
      let st ← spawnBatch cr cfg st
      awaitOver cfg.inflightBatches st.inflight st
  else pure st

/-- The bytes of a chunk, for at most `fuel` rounds. -/
def takeChunk : Nat → UploadState → Bytes → Handler UploadState
  | 0, st, rem => if rem = [] then pure st else liftM (.error .fuel : Result ApiError _)
  | fuel + 1, st, rem =>
    if rem = [] then pure st
    else do
      let need := cfg.blockSize - st.currentBlock.length
      let take := min need rem.length
      let st ← commitBatch cr cfg (addBytes cfg st (rem.take take))
      takeChunk fuel st (rem.drop take)

/-- One item of the body stream. A round takes at least one byte, so a chunk's length bounds the
rounds (for a block size of zero the source's loop does not end). -/
def readChunk (st : UploadState) (next : Except String Bytes) : Handler UploadState := do
  let chunk ← liftM (wrap (fun e => ApiError.internal (.bodyStream e)) next)
  if chunk = [] then return st
  match checkedAdd64 st.datasetSize chunk.length with
  | none => liftM (.error (.err (.badRequest "Upload too large")) : Result ApiError _)
  | some datasetSize => takeChunk cr cfg chunk.length { st with datasetSize } chunk

/-- The last batch, if it is not empty. -/
def spawnRest (st : UploadState) : Handler UploadState :=
  if st.rawBatch ≠ [] then spawnBatch cr cfg st else pure st

/-- The rest of the body, and the CIDs of all blocks. -/
def finishBlocks (st : UploadState) : Handler UploadState := do
  let st := if st.currentBlock ≠ [] then pushBlock cfg st else st
  if cfg.dedupeBlocks then
    flushUploadRawBatch cr cfg.hashWorkers st
  else do
    let st ← spawnRest cr cfg st
    let st ← drain (st.inflight + 1) st
    let blockCids ← liftM (st.blockCidSlots.mapM slotCid)
    return { st with blockCids }

/-! ## The manifest -/

def metadataTag : String := "metadata:"

/-- The steps after the blocks are stored: the tree, its block list and the manifest. -/
def storeManifest (px : Prost) (blockCids : List Cid) (datasetSize : UInt64) : Handler Cid := do
  let tree ← liftM (wrapCall (fun e => ApiError.internal (.createTree e))
    (Tree.ArchivistTree.new cr.sha256 blockCids))
  let treeCid ← liftM (wrapCall (fun e => ApiError.internal (.treeCid e)) tree.rootCid)
  let metadataBlock ← liftM (wrap (fun e => ApiError.internal (.metadataBlock e))
    (Block.newSha256 cr (tree.serializeBlockList cr)))
  putMany .storeMetadata [metadataBlock]
  let manifest := Manifest.new treeCid (UInt64.ofNat cfg.blockSize) datasetSize none
    (some Manifest.sha256Codec) none (some (metadataTag ++ cr.cidToString metadataBlock.cid)) none
  -- the log line computes the number of blocks
  let _ ← liftM (manifest.blocksCount : Result ApiError Nat)
  let manifestBlock ← liftM (wrap (fun e => ApiError.internal (.encodeManifest e))
    (manifest.toBlock cr px))
  putMany .storeManifest [manifestBlock]
  return manifestBlock.cid

/-- `archivist_upload`. The text that is sent is that of the CID. -/
def archivistUpload (px : Prost) (body : List (Except String Bytes)) : Handler Cid := do
  let st ← body.foldlM (readChunk cr cfg) (UploadState.new cfg)
  let st ← finishBlocks cr cfg st
  if st.datasetSize = 0 then
    liftM (.error (.err (.badRequest "Empty data")) : Result ApiError _)
  else storeManifest cr cfg px st.blockCids st.datasetSize

/-- `archivist_upload_raw_block`. -/
def archivistUploadRawBlock (body : List (Except String Bytes)) : Handler Cid := do
  let chunks ← liftM (body.mapM (wrap fun e => ApiError.internal (.bodyStream e)))
  let data := chunks.flatten
  if data = [] then
    liftM (.error (.err (.badRequest "Empty data")) : Result ApiError _)
  else do
    let block ← liftM (wrap (fun e => ApiError.internal (.createBlock e)) (Block.newSha256 cr data))
    putMany .storeBlock [block]
    return block.cid

/-- `store_block`. -/
def storeBlock (body : Bytes) : Handler Cid := do
  if body = [] then
    liftM (.error (.err (.badRequest "Empty block data")) : Result ApiError _)
  else do
    let block ← liftM (wrap (fun e => ApiError.internal (.createBlock e)) (Block.new cr body))
    putMany .storeBlock [block]
    return block.cid

end

end Api
