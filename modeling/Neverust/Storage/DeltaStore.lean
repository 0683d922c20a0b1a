import Neverust.Storage.DeltaFlat.Lane
import Neverust.Storage.Redb

/-!
# The DeltaStore backend (`storage.rs`)

The data of the blocks lie in block files, one sequence of files for each size class. A redb
database has an index from the text of a CID to a location in a file, and for each class the place
where its next block goes. A call of `put_many` writes to the files inside a transaction of the
database: when it fails, the tables stay as they were, and the bytes it wrote stay in the files.
-/

open Std (ExtTreeMap)

namespace Storage.DeltaStore

open Io Rust Bytes

/-! ## Records -/

structure DeltaLocation where
  classId : UInt8
  fileId : UInt32
  offset : UInt64
  len : UInt32
  deriving Repr, DecidableEq

structure DeltaClassState where
  fileId : UInt32
  nextOffset : UInt64
  deriving Repr, DecidableEq

def locationEncodedLen : Nat := 1 + 1 + 4 + 8 + 4

def classStateEncodedLen : Nat := 4 + 8

def encodeLocation (loc : DeltaLocation) : Bytes :=
  [1, loc.classId] ++ leBytes 4 loc.fileId.toNat ++ leBytes 8 loc.offset.toNat ++
    leBytes 4 loc.len.toNat

def decodeLocation (bytes : Bytes) : Except StorageError DeltaLocation :=
  if bytes.length ≠ locationEncodedLen then
    .error (.databaseError (.locationLength locationEncodedLen bytes.length))
  else if byteAt bytes 0 ≠ 1 then
    .error (.databaseError (.locationVersion (byteAt bytes 0).toNat))
  else
    .ok { classId := byteAt bytes 1, fileId := u32OfLe (slice bytes 2 4),
          offset := u64OfLe (slice bytes 6 8), len := u32OfLe (slice bytes 14 4) }

def encodeClassState (state : DeltaClassState) : Bytes :=
  leBytes 4 state.fileId.toNat ++ leBytes 8 state.nextOffset.toNat

def decodeClassState (bytes : Bytes) : Except StorageError DeltaClassState :=
  if bytes.length ≠ classStateEncodedLen then
    .error (.databaseError (.classStateLength classStateEncodedLen bytes.length))
  else .ok { fileId := u32OfLe (slice bytes 0 4), nextOffset := u64OfLe (slice bytes 4 8) }

def classStateKey (classId : UInt8) : String :=
  if classId < 10 then s!"c0{classId.toNat}" else s!"c{classId.toNat}"

/-! ## State -/

/-- The file `blk-<file>.dat` in the directory of a class. -/
abbrev BlockFile := UInt8 × UInt32

abbrev Disk := World BlockFile

abbrev Act (α : Type) := Prog BlockFile StorageError α

/-- The tables of the database. -/
structure Db where
  index : ExtTreeMap String Bytes
  classState : ExtTreeMap String Bytes

/-- The settings of the store, with the variables that it reads later. -/
structure Store where
  fsyncWrites : Bool
  maxFileBytes : UInt64
  skipExistsCheck : Bool
  verifyBlocksOnWrite : Bool
  deriving Repr, DecidableEq

/-- `DeltaStore::open`, given the variables that are set. -/
def Store.open (fsync : Bool) (maxFileBytes : Option UInt64) (skipExistsCheck verify : Bool) :
    Store where
  fsyncWrites := fsync
  maxFileBytes := UInt64.ofNat
    (max (envU64 maxFileBytes (1024 * 1024 * 1024)).toNat
      (deltaSizeClasses.getLast?.getD (512 * 1024 * 1024)))
  skipExistsCheck := skipExistsCheck
  verifyBlocksOnWrite := verify

structure State where
  db : Db
  disk : Disk

/-- An operation of the database. -/
def dbCall : Act Unit := fun w =>
  match w.fault with
  | none => .ok () (w.logged .database)
  | some _ => .error (.databaseError .redb) (w.logged .database)

/-! ## Writing -/

/-- What a call of `put_many` has done so far: its view of the index, the class states it has
changed and the files it has opened. -/
structure Batch where
  index : ExtTreeMap String Bytes
  stateCache : List (UInt8 × DeltaClassState)
  fileCache : List BlockFile

def cachedState (cache : List (UInt8 × DeltaClassState)) (classId : UInt8) :
    Option DeltaClassState :=
  cache.lookup classId

def setState (cache : List (UInt8 × DeltaClassState)) (classId : UInt8) (state : DeltaClassState) :
    List (UInt8 × DeltaClassState) :=
  (classId, state) :: cache.filter (·.1 ≠ classId)

/-- The state of a class, read from the database when the batch needs it first. -/
def loadState (classState : ExtTreeMap String Bytes) (cache : List (UInt8 × DeltaClassState))
    (classId : UInt8) : Act DeltaClassState :=
  match cachedState cache classId with
  | some state => pure state
  | none => do
    dbCall
    match classState[classStateKey classId]? with
    | some v => lift (decodeClassState v)
    | none => pure { fileId := 0, nextOffset := 0 }

/-- The errors of the loop that looks for a file with room: a sum that leaves its type stops the
task that runs the call, which is reported as an I/O error. -/
def rollError : StorageError → StorageError
  | .databaseError .nextOffsetOverflow => .ioError .other
  | .databaseError .fileIdOverflow => .databaseError .deltaFileIdOverflow
  | e => e

/-- The loop goes on to the next file while the data does not fit. -/
def roll (maxFileBytes : UInt64) (len : Nat) (state : DeltaClassState) :
    Except StorageError DeltaClassState :=
  match DeltaFlat.rollFile maxFileBytes len state.fileId state.nextOffset with
  | .ok (fileId, nextOffset) => .ok { fileId, nextOffset }
  | .error e => .error (rollError e)

/-- The file of a class state, opened if the batch has not opened it yet. When it is opened, the
next offset becomes the length of the file. -/
def openBlockFile (classId : UInt8) (state : DeltaClassState) (cache : List BlockFile) :
    Act (DeltaClassState × List BlockFile) := do
  let file := (classId, state.fileId)
  if file ∈ cache then return (state, cache)
  else
    attempt .createDir
    openCreate file
    let fileLen ← fileLen file
    let state := { state with nextOffset := UInt64.ofNat fileLen }
    attempt (.seek file)
    return (state, file :: cache)

/-- The location of data that was written, and the state of its class after it. -/
def locate (classId : UInt8) (state : DeltaClassState) (len : Nat) :
    Except StorageError (DeltaLocation × DeltaClassState) :=
  match checkedAdd64 state.nextOffset len with
  | none => .error (.databaseError .deltaOffsetOverflow)
  | some nextOffset =>
    match tryFrom32 len with
    | none => .error (.databaseError .blockLengthExceedsU32)
    | some len32 =>
      .ok ({ classId, fileId := state.fileId, offset := state.nextOffset, len := len32 },
        { state with nextOffset })

section
variable (cr : Crates) (st : Store)

/-- The data of a block goes to the end of a file of its class. -/
def placeData (classId : UInt8) (state : DeltaClassState) (cache : List BlockFile) (data : Bytes) :
    Act (DeltaLocation × DeltaClassState × List BlockFile) := do
  let state ← lift (roll st.maxFileBytes data.length state)
  let (state, cache) ← openBlockFile classId state cache
  attempt (.seek (classId, state.fileId))
  writeAllAt (classId, state.fileId) state.nextOffset.toNat data
  let (loc, state) ← lift (locate classId state data.length)
  return (loc, state, cache)

/-- `!skip_exists_check && index.get(key)?.is_some()`. -/
def existsCheck (index : ExtTreeMap String Bytes) (key : String) : Act Bool :=
  if st.skipExistsCheck then pure false
  else do
    dbCall
    return (index[key]?).isSome

def putBlock (classState : ExtTreeMap String Bytes) (batch : Batch) (block : Block) :
    Act Batch := do
  let key := cr.cidToString block.cid
  if ← existsCheck st batch.index key then return batch
  else
    let classId := UInt8.ofNat (classForLen block.data.length).1
    let state ← loadState classState batch.stateCache classId
    let (loc, state, fileCache) ← placeData st classId state batch.fileCache block.data
    dbCall
    return { index := batch.index.insert key (encodeLocation loc),
             stateCache := setState batch.stateCache classId state, fileCache }

/-- The class states go to the database. -/
def saveStates (classState : ExtTreeMap String Bytes) (cache : List (UInt8 × DeltaClassState)) :
    Act (ExtTreeMap String Bytes) :=
  cache.foldlM
    (fun t p => do
      dbCall
      return t.insert (classStateKey p.1) (encodeClassState p.2))
    classState

def syncFiles (files : List BlockFile) : Act Unit :=
  files.foldlM (fun _ file => attempt (.sync file)) ()

/-- `put_many`: the tables after the commit. -/
def putMany (db : Db) (blocks : List Block) : Act Db :=
  if blocks = [] then pure db
  else do
    lift (verifyBlocks cr st.verifyBlocksOnWrite blocks)
    -- the transaction begins and opens its two tables
    dbCall
    dbCall
    dbCall
    let batch ← blocks.foldlM (putBlock cr st db.classState)
      { index := db.index, stateCache := [], fileCache := [] }
    if st.fsyncWrites then
      syncFiles batch.fileCache
    let classState ← saveStates db.classState batch.stateCache
    dbCall
    return { index := batch.index, classState }

/-! ## Reading and removal -/

/-- The data at a location. -/
def readLocation (key : String) (loc : DeltaLocation) : Act Bytes := do
  let file := (loc.classId, loc.fileId)
  openFile file (.blockNotFound key)
  attempt (.seek file)
  match ← readExactAt file loc.offset.toNat loc.len.toNat with
  | some data => return data
  | none => throw (.ioError .unexpectedEof)

def get (db : Db) (cid : Cid) : Act Block := do
  let key := cr.cidToString cid
  dbCall
  dbCall
  dbCall
  match db.index[key]? with
  | none => throw (.blockNotFound key)
  | some bytes =>
    let loc ← lift (decodeLocation bytes)
    let data ← readLocation key loc
    return { cid, data }

def has (db : Db) (cid : Cid) : Act Bool := do
  dbCall
  dbCall
  dbCall
  return (db.index[cr.cidToString cid]?).isSome

/-- `delete`: the tables after the commit. -/
def delete (db : Db) (cid : Cid) : Act Db := do
  let key := cr.cidToString cid
  dbCall
  dbCall
  dbCall
  match db.index[key]? with
  | none => throw (.blockNotFound key)
  | some _ =>
    dbCall
    return { db with index := db.index.erase key }

def listCids (db : Db) : Act (List Cid) := do
  dbCall
  dbCall
  dbCall
  return db.index.keys.filterMap cr.cidOfString

/-! ## Calls -/

/-- A call that changes the tables if it succeeds. -/
def commit (x : Act Db) (s : State) : Except StorageError Unit × State :=
  match x s.disk with
  | .ok db disk => (.ok (), { db, disk })
  | .error e disk => (.error e, { s with disk })

/-- A call that reads; its errors are values. -/
def query {α : Type} (x : Act α) (s : State) : Except StorageError α × State :=
  match x s.disk with
  | .ok a disk => (.ok a, { s with disk })
  | .error e disk => (.error e, { s with disk })

def answer : (r : StoreReq) → State → StoreAns r × State
  | .putMany blocks, s => commit (putMany cr st s.db blocks) s
  | .get cid, s => query (get cr s.db cid) s
  | .has cid, s =>
    let (r, s) := query (has cr s.db cid) s
    (r.toOption.getD false, s)
  | .delete cid, s => commit (delete cr s.db cid) s
  | .listCids, s =>
    let (r, s) := query (listCids cr s.db) s
    (r.toOption.getD [], s)

def backend : Backend where
  State := State
  answer := answer cr st

end

/-- The store in an empty directory, with a plan of what will fail. -/
def State.start (faults : Nat → Option Nat) : State where
  db := { index := ∅, classState := ∅ }
  disk := { World.empty with faults }

end Storage.DeltaStore
