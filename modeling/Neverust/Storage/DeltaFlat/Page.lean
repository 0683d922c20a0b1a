import Neverust.Storage.Types
import Neverust.Lib.Rust

/-!
# DeltaFlat: control records and index pages

The byte layout of the two records of a lane: the control record (`control.bin`) and the index
page, a bucket of 32 slots of 128 bytes. The functions are those of `DeltaFlatStore`; the
conversions of slices to arrays of the same length cannot fail and have no error branch here.
-/

namespace Storage.DeltaFlat

open Io Rust Bytes

/-! ## Constants -/

def version : Nat := 1
def stateEmpty : UInt8 := 0
def stateFull : UInt8 := 1
def stateTombstone : UInt8 := 2
def maxCidBytes : Nat := 96
def maxLanes : Nat := 4096

/-- `b"DFC1"`. -/
def controlMagic : Bytes := [68, 70, 67, 49]

def controlLen : Nat := 64
def bucketBytes : Nat := 4096
def entryBytes : Nat := 128
def entryCidOff : Nat := 28
def entriesPerBucket : Nat := bucketBytes / entryBytes
def loadFactorPct : Nat := 90

/-! ## Hashes -/

/-- The values of `split_hash`. -/
structure SplitHash where
  even : UInt64
  odd : UInt64
  fingerprint : UInt8
  hash64 : UInt64
  deriving Repr, DecidableEq

/-- `x.rotate_left(7)`. -/
def rotateLeft7 (x : UInt64) : UInt64 := (x <<< 7) ||| (x >>> 57)

/-- The two rails of a digest: even positions into `even`, odd positions into `odd`. -/
def rails : Bool → UInt64 → UInt64 → Bytes → UInt64 × UInt64
  | _, even, odd, [] => (even, odd)
  | true, even, odd, b :: bs => rails false (rotateLeft7 even ^^^ b.toUInt64) odd bs
  | false, even, odd, b :: bs => rails true even (rotateLeft7 odd ^^^ b.toUInt64) bs

/-- `split_hash`; `blake3` gives the digest. -/
def splitHash (blake3 : Bytes → Bytes) (cidBytes : Bytes) : SplitHash :=
  let bytes := blake3 cidBytes
  let (even, odd) := rails true 0 0 bytes
  { even, odd, fingerprint := odd.toUInt8 ||| 1, hash64 := u64OfLe (bytes.slice 0 8) }

/-! ## Control records -/

structure Control where
  level : UInt32
  splitPtr : UInt32
  itemCount : UInt64
  nextFileId : UInt32
  nextOffset : UInt64
  deriving Repr, DecidableEq

/-- `1u32.checked_shl(level)`. -/
def checkedShl (level : UInt32) : Option Nat :=
  if level.toNat < 32 then some (2 ^ level.toNat) else none

/-- The record `write_control_raw` writes. -/
def encodeControl (c : Control) : Buffer controlLen :=
  (Buffer.zero controlLen)
    |>.put 0 controlMagic
    |>.put 4 (leBytes 4 version)
    |>.put 8 (leBytes 4 c.level.toNat)
    |>.put 12 (leBytes 4 c.splitPtr.toNat)
    |>.put 16 (leBytes 8 c.itemCount.toNat)
    |>.put 24 (leBytes 4 c.nextFileId.toNat)
    |>.put 28 (leBytes 8 c.nextOffset.toNat)

/-- The record `read_control_raw` finds in the bytes it read. -/
def decodeControl (buf : Buffer controlLen) : Except StorageError (Option Control) :=
  if buf.slice 0 4 ≠ controlMagic then .ok none
  else if u32OfLe (buf.slice 4 4) ≠ UInt32.ofNat version then .ok none
  else
    let level := u32OfLe (buf.slice 8 4)
    let splitPtr := u32OfLe (buf.slice 12 4)
    let itemCount := u64OfLe (buf.slice 16 8)
    let nextFileId := u32OfLe (buf.slice 24 4)
    let nextOffset := u64OfLe (buf.slice 28 8)
    match checkedShl level with
    | none => .error (.databaseError .controlLevelOverflow)
    | some base =>
      if base ≤ splitPtr.toNat then .ok none
      else .ok (some { level, splitPtr, itemCount, nextFileId, nextOffset })

def bucketCount (c : Control) : Except StorageError Nat :=
  match checkedShl c.level with
  | none => .error (.databaseError .invalidLevel)
  | some base =>
    if base + c.splitPtr.toNat < 2 ^ 32 then .ok (base + c.splitPtr.toNat)
    else .error (.databaseError .bucketCountOverflow)

def primaryBucket (evenHash : UInt64) (c : Control) : Except StorageError Nat :=
  match checkedShl c.level with
  | none => .error (.databaseError .invalidLevel)
  | some base =>
    if base ≤ c.splitPtr.toNat then
      .error (.databaseError (.invalidSplitPtr c.splitPtr.toNat c.level.toNat))
    else
      let bucket := evenHash.toNat % base
      if bucket < c.splitPtr.toNat then
        -- `base.checked_mul(2)` on `u32`.
        if base * 2 < 2 ^ 32 then .ok (evenHash.toNat % (base * 2))
        else .error (.databaseError .expandedBaseOverflow)
      else .ok bucket

/-- `a.saturating_mul(b)` on `u64`. -/
def saturatingMul64 (a b : Nat) : Nat := min (a * b) (2 ^ 64 - 1)

def shouldSplit (c : Control) : Except StorageError Bool := do
  let buckets ← bucketCount c
  let capacity := saturatingMul64 buckets entriesPerBucket
  if capacity = 0 then return true
  return saturatingMul64 capacity loadFactorPct ≤ saturatingMul64 c.itemCount.toNat 100

/-! ## Pages -/

structure Entry where
  fingerprint : UInt8
  fileId : UInt32
  offset : UInt64
  len : UInt32
  hash64 : UInt64
  cid : Bytes
  deriving Repr, DecidableEq

abbrev Page := Buffer bucketBytes

def entryOffset (slot : Nat) : Nat := slot * entryBytes

def entryState (page : Page) (slot : Nat) : UInt8 := page.byte (entryOffset slot)

def decodeEntry (page : Page) (slot : Nat) : Except StorageError (Option Entry) :=
  let o := entryOffset slot
  if page.byte o ≠ stateFull then .ok none
  else
    let cidLen := (page.byte (o + 2)).toNat
    if cidLen = 0 ∨ maxCidBytes < cidLen then
      .error (.databaseError (.malformedCidLength cidLen slot))
    else
      .ok (some
        { fingerprint := page.byte (o + 1)
          fileId := u32OfLe (page.slice (o + 4) 4)
          offset := u64OfLe (page.slice (o + 8) 8)
          len := u32OfLe (page.slice (o + 16) 4)
          hash64 := u64OfLe (page.slice (o + 20) 8)
          cid := page.slice (o + entryCidOff) cidLen })

def writeEntryToPage (page : Page) (slot : Nat) (entry : Entry) : Except StorageError Page :=
  if entry.cid = [] ∨ maxCidBytes < entry.cid.length then
    .error (.databaseError (.entryCidLength entry.cid.length))
  else
    let o := entryOffset slot
    .ok (page
      |>.put o (List.replicate entryBytes 0)
      |>.put o [stateFull]
      |>.put (o + 1) [entry.fingerprint]
      |>.put (o + 2) [UInt8.ofNat entry.cid.length]
      |>.put (o + 4) (leBytes 4 entry.fileId.toNat)
      |>.put (o + 8) (leBytes 8 entry.offset.toNat)
      |>.put (o + 16) (leBytes 4 entry.len.toNat)
      |>.put (o + 20) (leBytes 8 entry.hash64.toNat)
      |>.put (o + entryCidOff) entry.cid)

def markTombstone (page : Page) (slot : Nat) : Page :=
  let o := entryOffset slot
  page |>.put o (List.replicate entryBytes 0) |>.put o [stateTombstone]

/-- The loop of `find_entry_slot` over the given slots. -/
def findEntrySlotIn (page : Page) (cid : Bytes) (fingerprint : UInt8) (hash64 : UInt64) :
    List Nat → Except StorageError (Option (Nat × Entry))
  | [] => .ok none
  | slot :: slots =>
    if entryState page slot ≠ stateFull then findEntrySlotIn page cid fingerprint hash64 slots
    else do
      match ← decodeEntry page slot with
      | none => findEntrySlotIn page cid fingerprint hash64 slots
      | some entry =>
        if entry.fingerprint = fingerprint ∧ entry.hash64 = hash64 ∧ entry.cid = cid then
          return some (slot, entry)
        else findEntrySlotIn page cid fingerprint hash64 slots

def findEntrySlot (page : Page) (cid : Bytes) (fingerprint : UInt8) (hash64 : UInt64) :
    Except StorageError (Option (Nat × Entry)) :=
  findEntrySlotIn page cid fingerprint hash64 (List.range entriesPerBucket)

def entryMatches (page : Page) (slot : Nat) (cid : Bytes) (fingerprint : UInt8)
    (hash64 : UInt64) : Except StorageError Bool :=
  let o := entryOffset slot
  if page.byte o ≠ stateFull then .ok false
  else if page.byte (o + 1) ≠ fingerprint then .ok false
  else if u64OfLe (page.slice (o + 20) 8) ≠ hash64 then .ok false
  else
    let cidLen := (page.byte (o + 2)).toNat
    if cidLen = 0 ∨ maxCidBytes < cidLen then
      .error (.databaseError (.malformedCidLength cidLen slot))
    else if cidLen ≠ cid.length then .ok false
    else .ok (page.slice (o + entryCidOff) cidLen == cid)

/-- The loop of `page_contains_entry` over the given slots. -/
def pageContainsEntryIn (page : Page) (cid : Bytes) (fingerprint : UInt8) (hash64 : UInt64) :
    List Nat → Except StorageError Bool
  | [] => .ok false
  | slot :: slots => do
    if ← entryMatches page slot cid fingerprint hash64 then return true
    else pageContainsEntryIn page cid fingerprint hash64 slots

def pageContainsEntry (page : Page) (cid : Bytes) (fingerprint : UInt8) (hash64 : UInt64) :
    Except StorageError Bool :=
  pageContainsEntryIn page cid fingerprint hash64 (List.range entriesPerBucket)

/-- The loop of `find_free_slot` over the given slots. -/
def findFreeSlotIn (page : Page) : Option Nat → List Nat → Option Nat
  | tombstone, [] => tombstone
  | tombstone, slot :: slots =>
    if entryState page slot = stateEmpty then some (tombstone.getD slot)
    else if entryState page slot = stateTombstone then
      findFreeSlotIn page (tombstone.or (some slot)) slots
    else findFreeSlotIn page tombstone slots

def findFreeSlot (page : Page) : Option Nat :=
  findFreeSlotIn page none (List.range entriesPerBucket)

/-- One round of the loop of `split_one_bucket` that moves the entries of the new bucket. -/
def splitSlot (H : Bytes → SplitHash) (base newBucket : Nat) (pages : Page × Page) (slot : Nat) :
    Except StorageError (Page × Page) := do
  match ← decodeEntry pages.1 slot with
  | none => return pages
  | some entry =>
    -- `base < 2 ^ 32`, so that `(base as u64).checked_mul(2)` does not overflow; the cast of the
    -- target to `u32` keeps it.
    let target := (H entry.cid).even.toNat % (base * 2)
    if target = newBucket then
      match findFreeSlot pages.2 with
      | none => throw (.databaseError .newSplitBucketFull)
      | some dst =>
        let newPage ← writeEntryToPage pages.2 dst entry
        return (markTombstone pages.1 slot, newPage)
    else return pages

/-- The loop of `split_one_bucket`. -/
def splitPages (H : Bytes → SplitHash) (base newBucket : Nat) (old new : Page) :
    Except StorageError (Page × Page) :=
  (List.range entriesPerBucket).foldlM (splitSlot H base newBucket) (old, new)

end Storage.DeltaFlat
