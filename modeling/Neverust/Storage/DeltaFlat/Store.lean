import Neverust.Storage.DeltaFlat.Lane

/-!
# DeltaFlat: the store

The public functions of `DeltaFlatStore`. A block belongs to the lane of its size class and of its
CID's hash. Writing goes to that lane only; reading looks at the CID's lane in every class, in the
order of the classes.

The lane locks of the process exclude other calls and are not modelled, nor is a task of
`spawn_blocking` that panics. A lane directory exists when its control file does.
-/

namespace Storage.DeltaFlat

open Io Rust Bytes

/-! ## Lanes -/

def laneDir (st : Store) (classId laneId : Nat) : LaneDir :=
  if st.laneCount ≤ 1 then .classDir classId else .lane classId laneId

def openClassFiles (d : LaneDir) : Act Unit := do
  attempt .createDir
  openCreate (d, .control)
  openCreate (d, .index)

def lockControl (st : Store) (d : LaneDir) : Act Unit :=
  if st.skipFcntl then pure () else attempt (.lock (d, .control))

def unlockControl (st : Store) (d : LaneDir) : Act Unit :=
  if st.skipFcntl then pure () else attempt (.unlock (d, .control))

/-- An error of the unlocking counts if the operation itself went well. -/
def withUnlock {α : Type} (opRes : Except StorageError α) (unlockRes : Except StorageError Unit) :
    Except StorageError α :=
  match opRes, unlockRes with
  | .ok _, .error e => .error e
  | r, _ => r

section
variable (H : Bytes → SplitHash) (st : Store)

def laneForCid (cidBytes : Bytes) : Nat :=
  if st.laneCount ≤ 1 then 0 else (H cidBytes).hash64.toNat % st.laneCount

/-- The lane a CID has in a class. -/
def laneOf (classId : Nat) (cidBytes : Bytes) : LaneDir :=
  laneDir st classId (laneForCid H st cidBytes)

/-! ## Writing -/

/-- The syncs of the files a batch has touched. -/
def syncBatch (d : LaneDir) (batch : Batch) : Act Unit := do
  batch.touchedData.eraseDups.foldlM (fun _ fileId =>
    if fileId ∈ batch.dataFiles then attempt (.sync (d, .data fileId)) else pure ()) ()
  if batch.touchedIndex then attempt (.sync (d, .index))
  attempt (.sync (d, .control))

/-- The loop of `put_many` over the blocks of one lane. -/
def insertBlocks (d : LaneDir) (blocks : List (Block × Bytes)) (s : Control × Batch) :
    Act (Control × Batch) :=
  blocks.foldlM (fun s b => insertBlockInClass H st d b.1 b.2 st.skipExistsCheck s.1 s.2) s

/-- The closure of `put_many`: the blocks of one lane, then the control record. -/
def fillLane (d : LaneDir) (blocks : List (Block × Bytes)) : Act Unit := do
  let control ← loadOrInitControl st d
  let s ← insertBlocks H st d blocks (control, Batch.empty)
  writeControlRaw d s.1
  if st.fsyncWrites then syncBatch d s.2

/-- A round of `put_many`. -/
def putLane (d : LaneDir) (blocks : List (Block × Bytes)) : Act Unit := do
  openClassFiles d
  lockControl st d
  let opRes ← captured (fillLane H st d blocks)
  let unlockRes ← captured (unlockControl st d)
  lift (withUnlock opRes unlockRes)

/-- The bin of a block: its class and lane. -/
def binOf (b : Block × Bytes) : Nat × Nat :=
  ((classForLen b.1.data.length).1, laneForCid H st b.2)

/-- A bin joins the active ones with its first block. -/
def addBin (active : List (Nat × Nat)) (bin : Nat × Nat) : List (Nat × Nat) :=
  if bin ∈ active then active else active ++ [bin]

end

section
variable (cr : Crates) (st : Store)

/-- The hash of the store's CIDs. -/
def hashOf : Bytes → SplitHash := splitHash cr.blake3

/-- `put_many`: the blocks are sorted into bins, and the bins are written in the order in which
they got their first block. -/
def putMany (blocks : List Block) : Act Unit := do
  lift (verifyBlocks cr st.verifyBlocksOnWrite blocks)
  let blocks := blocks.map fun block => (block, cr.cidToBytes block.cid)
  let activeBins := (blocks.map (binOf (hashOf cr) st)).foldl addBin []
  activeBins.foldlM (fun _ bin =>
    putLane (hashOf cr) st (laneDir st bin.1 bin.2)
      (blocks.filter fun b => binOf (hashOf cr) st b = bin)) ()

def put (block : Block) : Act Unit := putMany cr st [block]

/-! ## Reading -/

/-- The lanes a CID is looked up in. -/
def scannedLanes (cid : Cid) : List LaneDir :=
  (List.range deltaSizeClasses.length).map fun classId =>
    laneOf (hashOf cr) st classId (cr.cidToBytes cid)

def laneExists (d : LaneDir) : Act Bool := do
  let control ← fileExists (d, .control)
  let index ← fileExists (d, .index)
  return control && index

/-- The closure of `get` and `has`. -/
def lookupControl (d : LaneDir) (cid : Cid) : Act (Option Entry) := do
  match ← readControlRaw d with
  | none => return none
  | some control =>
    let found ← lookupInClass (hashOf cr) d control (cr.cidToBytes cid)
    return found.map fun f => f.2.2

/-- A round of `get` or `has`. Here an error of the unlocking comes first. -/
def lookupLane (d : LaneDir) (cid : Cid) : Act (Option Entry) := do
  openFile (d, .control) (fromIo .notFound)
  openFile (d, .index) (fromIo .notFound)
  lockControl st d
  let lookupRes ← captured (lookupControl cr d cid)
  unlockControl st d
  lift lookupRes

/-- The loop of `get` and `has`: the first lane with an entry of the CID. -/
def findEntry (cid : Cid) : List LaneDir → Act (Option (LaneDir × Entry))
  | [] => return none
  | d :: ds => do
    if ← laneExists d then
      match ← lookupLane cr st d cid with
      | some entry => return some (d, entry)
      | none => findEntry cid ds
    else findEntry cid ds

/-- The data of an entry. -/
def readEntry (d : LaneDir) (cid : Cid) (entry : Entry) : Act Block := do
  openFile (d, .data entry.fileId) (.blockNotFound (cr.cidToString cid))
  match ← readExactAt (d, .data entry.fileId) entry.offset.toNat entry.len.toNat with
  | none => throw (fromIo .unexpectedEof)
  | some data => return { cid, data }

def get (cid : Cid) : Act Block := do
  match ← findEntry cr st cid (scannedLanes cr st cid) with
  | none => throw (.blockNotFound (cr.cidToString cid))
  | some (d, entry) => readEntry cr d cid entry

/-- An error counts as `false`. -/
def has (cid : Cid) : Act Bool := do
  match ← captured (findEntry cr st cid (scannedLanes cr st cid)) with
  | .error _ => return false
  | .ok found => return found.isSome

/-! ## Deletion -/

/-- The closure of `delete`. -/
def deleteControl (d : LaneDir) (cid : Cid) : Act Bool := do
  match ← readControlRaw d with
  | none => return false
  | some control =>
    match ← deleteInClass (hashOf cr) d control (cr.cidToBytes cid) with
    | none => return false
    | some control =>
      writeControlRaw d control
      if st.fsyncWrites then
        attempt (.sync (d, .index))
        attempt (.sync (d, .control))
      return true

/-- A round of `delete`. -/
def deleteLane (d : LaneDir) (cid : Cid) : Act Bool := do
  openFile (d, .control) (fromIo .notFound)
  openFile (d, .index) (fromIo .notFound)
  lockControl st d
  let opRes ← captured (deleteControl cr st d cid)
  let unlockRes ← captured (unlockControl st d)
  lift (withUnlock opRes unlockRes)

/-- The loop of `delete`: the first lane with an entry of the CID loses it. -/
def deleteFrom (cid : Cid) : List LaneDir → Act Unit
  | [] => throw (.blockNotFound (cr.cidToString cid))
  | d :: ds => do
    if ← laneExists d then
      if ← deleteLane cr st d cid then return ()
      else deleteFrom cid ds
    else deleteFrom cid ds

def delete (cid : Cid) : Act Unit := deleteFrom cr st cid (scannedLanes cr st cid)

/-! ## Listing -/

/-- The CIDs of a page. -/
def pageCids (page : Page) : Except StorageError (List Cid) := do
  let found ← (List.range entriesPerBucket).mapM (decodeEntry page)
  return found.reduceOption.filterMap fun entry => cr.cidOfBytes entry.cid

/-- A round of `list_cids`. -/
def listLane (d : LaneDir) : Act (List Cid) := do
  openFile (d, .control) (fromIo .notFound)
  openFile (d, .index) (fromIo .notFound)
  match ← readControlRaw d with
  | none => return []
  | some control =>
    let buckets ← lift (bucketCount control)
    (List.range buckets).foldlM (fun out bucket => do
      let page ← readBucket d bucket
      let cids ← lift (pageCids cr page)
      return out ++ cids) []

/-- All lanes of the store. -/
def allLanes : List LaneDir :=
  (List.range deltaSizeClasses.length).flatMap fun classId =>
    (List.range st.laneCount).map fun laneId => laneDir st classId laneId

def listLanes : Act (List Cid) :=
  (allLanes st).foldlM (fun out d => do
    if ← laneExists d then
      let cids ← listLane cr d
      return out ++ cids
    else return out) []

/-- An error counts as an empty list. -/
def listCids : Act (List Cid) := do
  match ← captured (listLanes cr st) with
  | .error _ => return []
  | .ok out => return out

end

end Storage.DeltaFlat
