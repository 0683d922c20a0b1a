import Neverust.CidBlake3

/-!
# Block storage: blocks, errors and size classes

What the four backends share. `DbError` has one constructor for each text of
`StorageError::DatabaseError`; `DbError.text` gives the texts.
-/

namespace Storage

open Io

/-- A block with its CID and data. -/
structure Block where
  cid : Cid
  data : Bytes
  deriving Repr, DecidableEq

/-- The cases of `StorageError::DatabaseError`. -/
inductive DbError
  | redb
  | malformedCidLength (cidLen slot : Nat)
  | entryCidLength (cidLen : Nat)
  | cidLength (cidLen : Nat) (cid : Cid)
  | insertionExhausted (cid : Cid)
  | invalidLevel
  | bucketCountOverflow
  | invalidSplitPtr (splitPtr level : Nat)
  | expandedBaseOverflow
  | controlLevelOverflow
  | splitBaseOverflow
  | splitPointerOutOfRange (splitPtr base : Nat)
  | newBucketOverflow
  | newSplitBucketFull
  | splitPointerOverflow
  | levelOverflow
  | dataLengthExceedsU32
  | nextOffsetOverflow
  | fileIdOverflow
  | binCountOverflow
  | locationLength (expected got : Nat)
  | locationVersion (version : Nat)
  | classStateLength (expected got : Nat)
  | deltaFileIdOverflow
  | deltaOffsetOverflow
  | blockLengthExceedsU32
  deriving Repr, DecidableEq

/-- The text of an error; `display` gives the text of a CID, `redb` that of the database. -/
def DbError.text (display : Cid → String) (redb : String) : DbError → String
  | .redb => redb
  | .malformedCidLength n slot => s!"deltaflat malformed cid length {n} at slot {slot}"
  | .entryCidLength n => s!"deltaflat entry cid length {n} out of bounds"
  | .cidLength n cid =>
    let shown := display cid
    s!"deltaflat CID length {n} out of bounds for {shown}"
  | .insertionExhausted cid =>
    let shown := display cid
    s!"deltaflat insertion exhausted splits for CID {shown}"
  | .invalidLevel => "deltaflat invalid level"
  | .bucketCountOverflow => "deltaflat bucket count overflow"
  | .invalidSplitPtr p l => s!"deltaflat invalid split_ptr {p} for level {l}"
  | .expandedBaseOverflow => "deltaflat expanded base overflow"
  | .controlLevelOverflow => "deltaflat control level overflow"
  | .splitBaseOverflow => "deltaflat split base overflow"
  | .splitPointerOutOfRange p b => s!"deltaflat split pointer out of range: {p} >= {b}"
  | .newBucketOverflow => "deltaflat new bucket overflow"
  | .newSplitBucketFull => "deltaflat new split bucket is full"
  | .splitPointerOverflow => "deltaflat split pointer overflow"
  | .levelOverflow => "deltaflat level overflow"
  | .dataLengthExceedsU32 => "deltaflat data length exceeds u32"
  | .nextOffsetOverflow => "deltaflat next_offset overflow"
  | .fileIdOverflow => "deltaflat file_id overflow"
  | .binCountOverflow => "deltaflat bin count overflow"
  | .locationLength e g => s!"delta location length mismatch: expected {e}, got {g}"
  | .locationVersion v => s!"unsupported delta location version {v}"
  | .classStateLength e g => s!"delta class state length mismatch: expected {e}, got {g}"
  | .deltaFileIdOverflow => "delta file_id overflow"
  | .deltaOffsetOverflow => "delta offset overflow"
  | .blockLengthExceedsU32 => "block length exceeds u32"

inductive StorageError
  | blockNotFound (cid : String)
  | verificationFailed (e : CidBlake3.CidError)
  | blockExists (cid : String)
  | databaseError (e : DbError)
  | ioError (e : IoError)
  deriving Repr, DecidableEq

instance : FromIo StorageError := ⟨.ioError⟩

@[simp] theorem fromIo_eq (e : IoError) : (fromIo e : StorageError) = .ioError e := rfl

/-! ## Settings -/

/-- `env_usize` of a variable (`none`: unset or no number); zero counts as unset. -/
def envUsize (v : Option Nat) (default : Nat) : Nat := (v.filter (0 < ·)).getD default

/-- `env_u64`. -/
def envU64 (v : Option UInt64) (default : UInt64) : UInt64 := (v.filter (0 < ·)).getD default

/-! ## Size classes -/

/-- `DELTA_SIZE_CLASSES`. -/
def deltaSizeClasses : List Nat :=
  [512 * 1024, 1024 * 1024, 2 * 1024 * 1024, 4 * 1024 * 1024, 8 * 1024 * 1024, 16 * 1024 * 1024,
    32 * 1024 * 1024, 64 * 1024 * 1024, 128 * 1024 * 1024, 256 * 1024 * 1024, 512 * 1024 * 1024]

/-- The first class that holds `len` bytes, the last class if none does. -/
def classForLenFrom (len : Nat) : Nat → List Nat → Nat × Nat
  | _, [] => (deltaSizeClasses.length - 1, deltaSizeClasses.getLast?.getD 0)
  | i, c :: cs => if len ≤ c then (i, c) else classForLenFrom len (i + 1) cs

def classForLen (len : Nat) : Nat × Nat := classForLenFrom len 0 deltaSizeClasses

theorem classForLenFrom_lt (len : Nat) :
    ∀ (i : Nat) (cs : List Nat), i + cs.length ≤ deltaSizeClasses.length →
      (classForLenFrom len i cs).1 < deltaSizeClasses.length
  | i, [], _ => by rw [classForLenFrom]; decide
  | i, c :: cs, h => by
    rw [classForLenFrom]
    rw [List.length_cons] at h
    split
    · show i < _
      omega
    · exact classForLenFrom_lt len (i + 1) cs (by omega)

theorem classForLen_lt (len : Nat) : (classForLen len).1 < deltaSizeClasses.length :=
  classForLenFrom_lt len 0 deltaSizeClasses (by simp)

/-- The check `put_many` makes first, if verification on write is on. -/
def verifyBlocks (cr : Crates) (verifyOnWrite : Bool) (blocks : List Block) :
    Except StorageError Unit :=
  if verifyOnWrite then
    blocks.forM fun block =>
      if block.cid.codec = 0xcd02 then
        (CidBlake3.verifyBlake3 cr block.data block.cid).mapError .verificationFailed
      else .ok ()
  else .ok ()

end Storage
