import Neverust.Storage.DeltaFlat.Page

/-!
# DeltaFlat: one lane

A lane is a directory with a control file, an index file of pages and numbered data files. The
functions are those of `DeltaFlatStore` that work on the files of one lane, with the control record
passed from call to call as the source passes `&mut control`. `H` stands for `split_hash`.
-/

namespace Storage.DeltaFlat

open Io Rust Bytes

/-! ## Files -/

/-- A lane directory: that of a class for a single lane, a subdirectory of it otherwise. -/
inductive LaneDir
  | classDir (classId : Nat)
  | lane (classId laneId : Nat)
  deriving Repr, DecidableEq

/-- `control.bin`, `index.bin` and `blk-*.dat`. -/
inductive LaneFile
  | control
  | index
  | data (fileId : UInt32)
  deriving Repr, DecidableEq

abbrev Path := LaneDir × LaneFile

abbrev Disk := World Path

abbrev Act (α : Type) := Prog Path StorageError α

/-- The environment variables `DeltaFlatStore` reads (`none`: unset or unreadable) and the
parallelism of the machine. -/
structure Env where
  fsync : Bool := false
  skipFcntl : Bool := false
  skipExistsCheck : Bool := false
  verifyBlocksOnWrite : Bool := false
  maxFileBytes : Option UInt64 := none
  maxProbeSteps : Option Nat := none
  lanes : Option Nat := none
  initialLevel : Option Nat := none
  availableParallelism : Option Nat := none
  deriving Repr, DecidableEq

/-- `DeltaFlatStore`, with the variables it reads later. -/
structure Store where
  fsyncWrites : Bool
  skipFcntl : Bool
  maxFileBytes : UInt64
  maxProbeSteps : UInt32
  laneCount : Nat
  skipExistsCheck : Bool
  verifyBlocksOnWrite : Bool
  initialLevel : Option Nat
  deriving Repr, DecidableEq

/-- `v.clamp(lo, hi)`. -/
def clamp (v lo hi : Nat) : Nat := min hi (max lo v)

/-- `DeltaFlatStore::open`. -/
def Store.open (env : Env) : Store where
  fsyncWrites := env.fsync
  skipFcntl := env.skipFcntl
  maxFileBytes := UInt64.ofNat
    (max (envU64 env.maxFileBytes (1024 * 1024 * 1024)).toNat
      (deltaSizeClasses.getLast?.getD (512 * 1024 * 1024)))
  maxProbeSteps := UInt32.ofNat (max (envUsize env.maxProbeSteps 16384) 1)
  laneCount :=
    clamp (envUsize env.lanes (clamp (env.availableParallelism.getD 8) 1 16)) 1 maxLanes
  skipExistsCheck := env.skipExistsCheck
  verifyBlocksOnWrite := env.verifyBlocksOnWrite
  initialLevel := env.initialLevel

/-! ## Index pages and control records -/

def ensureIndexBuckets (d : LaneDir) (buckets : Nat) : Act Unit := do
  let minLen := buckets * bucketBytes
  let current ← fileLen (d, .index)
  if current < minLen then setLen (d, .index) minLen

/-- A page past the end of the file reads as zeros. -/
def readBucket (d : LaneDir) (bucketId : Nat) : Act Page := do
  match ← readExactAt (d, .index) (bucketId * bucketBytes) bucketBytes with
  | some bytes => return Buffer.ofBytes bucketBytes bytes
  | none => return Buffer.zero bucketBytes

def writeBucket (d : LaneDir) (bucketId : Nat) (page : Page) : Act Unit :=
  writeAllAt (d, .index) (bucketId * bucketBytes) page.bytes

def readControlRaw (d : LaneDir) : Act (Option Control) := do
  match ← readExactAt (d, .control) 0 controlLen with
  | none => return none
  | some bytes => lift (decodeControl (Buffer.ofBytes controlLen bytes))

def writeControlRaw (d : LaneDir) (control : Control) : Act Unit :=
  writeAllAt (d, .control) 0 (encodeControl control).bytes

/-- The control record of a new lane. -/
def initialControl (st : Store) : Control where
  level := UInt32.ofNat (clamp (envUsize st.initialLevel 12) 1 24)
  splitPtr := 0
  itemCount := 0
  nextFileId := 0
  nextOffset := 0

def loadOrInitControl (st : Store) (d : LaneDir) : Act Control := do
  match ← readControlRaw d with
  | some control =>
    ensureIndexBuckets d (← lift (bucketCount control))
    return control
  | none =>
    let control := initialControl st
    ensureIndexBuckets d (← lift (bucketCount control))
    writeControlRaw d control
    return control

/-! ## Splits -/

/-- The control record after a split: the pointer moves on, or the level rolls over. -/
def advanceSplit (base : Nat) (control : Control) : Except StorageError Control :=
  match checkedAdd32 control.splitPtr 1 with
  | none => .error (.databaseError .splitPointerOverflow)
  | some splitPtr =>
    if base ≤ splitPtr.toNat then
      match checkedAdd32 control.level 1 with
      | none => .error (.databaseError .levelOverflow)
      | some level => .ok { control with level, splitPtr := 0 }
    else .ok { control with splitPtr }

section
variable (H : Bytes → SplitHash)

def splitOneBucket (d : LaneDir) (control : Control) : Act Control := do
  match checkedShl control.level with
  | none => throw (.databaseError .splitBaseOverflow)
  | some base =>
    if base ≤ control.splitPtr.toNat then
      throw (.databaseError (.splitPointerOutOfRange control.splitPtr.toNat base))
    else
      let splitBucket := control.splitPtr.toNat
      let newBucket := base + splitBucket
      if 2 ^ 32 ≤ newBucket then throw (.databaseError .newBucketOverflow)
      else if 2 ^ 32 ≤ newBucket + 1 then throw (.databaseError .bucketCountOverflow)
      else
        ensureIndexBuckets d (newBucket + 1)
        let oldPage ← readBucket d splitBucket
        let newPage ← readBucket d newBucket
        let pages ← lift (splitPages H base newBucket oldPage newPage)
        writeBucket d splitBucket pages.1
        writeBucket d newBucket pages.2
        lift (advanceSplit base control)

/-! ## Data -/

/-- What one batch has open and has touched. -/
structure Batch where
  dataFiles : List UInt32
  dataPositions : UInt32 → Option UInt64
  touchedData : List UInt32
  touchedIndex : Bool

def Batch.empty : Batch := ⟨[], fun _ => none, [], false⟩

/-- The loop of `append_data` that goes on to the next data file while the data does not fit. -/
def rollFile (maxFileBytes : UInt64) (len : Nat) (fileId : UInt32) (offset : UInt64) :
    Except StorageError (UInt32 × UInt64) :=
  match checkedAdd64 offset len with
  | none => .error (.databaseError .nextOffsetOverflow)
  | some stop =>
    if maxFileBytes.toNat < stop.toNat then
      match _hf : checkedAdd32 fileId 1 with
      | none => .error (.databaseError .fileIdOverflow)
      | some fileId' => rollFile maxFileBytes len fileId' 0
    else .ok (fileId, offset)
termination_by 2 ^ 32 - fileId.toNat
decreasing_by
  have := checkedAdd32_eq_some _hf
  have := fileId'.toNat_lt
  omega

/-- The data file of the append point, opened if this batch has not opened it yet. -/
def openDataFile (d : LaneDir) (fileId : UInt32) (offset : UInt64) (batch : Batch) :
    Act Batch := do
  if fileId ∈ batch.dataFiles then return batch
  else
    attempt .createDir
    openCreate (d, .data fileId)
    return { batch with
      dataFiles := fileId :: batch.dataFiles
      dataPositions := fun f => if f = fileId then some offset else batch.dataPositions f }

def appendData (st : Store) (d : LaneDir) (control : Control) (data : Bytes) (batch : Batch) :
    Act ((UInt32 × UInt64 × UInt32) × Control × Batch) := do
  match tryFrom32 data.length with
  | none => throw (.databaseError .dataLengthExceedsU32)
  | some len =>
    let (fileId, offset) ←
      lift (rollFile st.maxFileBytes data.length control.nextFileId control.nextOffset)
    let batch ← openDataFile d fileId offset batch
    let pos := (batch.dataPositions fileId).getD offset
    let pos := if pos ≠ offset then offset else pos
    writeAllAt (d, .data fileId) pos.toNat data
    let batch := { batch with
      dataPositions := fun f =>
        if f = fileId then some (saturatingAdd64 pos data.length) else batch.dataPositions f
      touchedData := fileId :: batch.touchedData }
    match checkedAdd64 offset data.length with
    | none => throw (.databaseError .nextOffsetOverflow)
    | some nextOffset =>
      return ((fileId, offset, len), { control with nextFileId := fileId, nextOffset }, batch)

/-! ## Insertion -/

/-- The end of an insertion: the block goes to a free slot of its bucket. -/
def insertAt (st : Store) (d : LaneDir) (cidBytes data : Bytes) (bucket : Nat) (page : Page)
    (slot : Nat) (control : Control) (batch : Batch) : Act (Control × Batch) := do
  let ((fileId, offset, len), control, batch) ← appendData st d control data batch
  let entry : Entry :=
    { fingerprint := (H cidBytes).fingerprint, fileId, offset, len,
      hash64 := (H cidBytes).hash64, cid := cidBytes }
  let page ← lift (writeEntryToPage page slot entry)
  writeBucket d bucket page
  let batch := { batch with touchedIndex := true }
  let control := { control with itemCount := saturatingAdd64 control.itemCount 1 }
  if ← lift (shouldSplit control) then
    let control ← splitOneBucket H d control
    return (control, batch)
  else return (control, batch)

/-- `!skip_exists_check && page_contains_entry(..)?`. -/
def existsCheck (skipExistsCheck : Bool) (page : Page) (cidBytes : Bytes) :
    Except StorageError Bool :=
  if skipExistsCheck then .ok false
  else pageContainsEntry page cidBytes (H cidBytes).fingerprint (H cidBytes).hash64

/-- The loop of `insert_block_in_class`, with the number of attempts left. The source counts the
attempts up to `max_probe_steps`. Its counter saturates, but a lane cannot be split `2 ^ 32` times,
so that the loop ends before it could. -/
def insertLoop (st : Store) (d : LaneDir) (block : Block) (cidBytes : Bytes)
    (skipExistsCheck : Bool) : Nat → Control → Batch → Act (Control × Batch)
  | 0, _, _ => throw (.databaseError (.insertionExhausted block.cid))
  | n + 1, control, batch => do
    let bucket ← lift (primaryBucket (H cidBytes).even control)
    let page ← readBucket d bucket
    let found ← lift (existsCheck H skipExistsCheck page cidBytes)
    if found then return (control, batch)
    else
      match findFreeSlot page with
      | some slot => insertAt H st d cidBytes block.data bucket page slot control batch
      | none =>
        let control ← splitOneBucket H d control
        insertLoop st d block cidBytes skipExistsCheck n control { batch with touchedIndex := true }

def insertBlockInClass (st : Store) (d : LaneDir) (block : Block) (cidBytes : Bytes)
    (skipExistsCheck : Bool) (control : Control) (batch : Batch) : Act (Control × Batch) :=
  if cidBytes = [] ∨ maxCidBytes < cidBytes.length then
    throw (.databaseError (.cidLength cidBytes.length block.cid))
  else insertLoop H st d block cidBytes skipExistsCheck st.maxProbeSteps.toNat control batch

/-! ## Lookup and deletion -/

def lookupInClass (d : LaneDir) (control : Control) (cidBytes : Bytes) :
    Act (Option (Nat × Nat × Entry)) := do
  let bucket ← lift (primaryBucket (H cidBytes).even control)
  let page ← readBucket d bucket
  let found ← lift (findEntrySlot page cidBytes (H cidBytes).fingerprint (H cidBytes).hash64)
  return found.map fun (slot, entry) => (bucket, slot, entry)

/-- The part of `delete` that works on the index: `none` if the lane has no such entry. -/
def deleteInClass (d : LaneDir) (control : Control) (cidBytes : Bytes) : Act (Option Control) := do
  match ← lookupInClass H d control cidBytes with
  | none => return none
  | some (bucket, slot, _) =>
    let page ← readBucket d bucket
    writeBucket d bucket (markTombstone page slot)
    return some { control with
      itemCount := if 0 < control.itemCount then control.itemCount - 1 else control.itemCount }

end

end Storage.DeltaFlat
