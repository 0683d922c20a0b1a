import Neverust.Lib.Io
import Neverust.Storage.Backend
import Neverust.Storage.Block

/-!
# The GeomTree backend (`storage.rs`)

Each block is a file of its own. Its name is the text of the CID, its directories come from bytes
of the CID's digest. A file is created under its name before the data is written to it, and a file
that is there is left as it is.
-/

namespace Storage.GeomTree

open Io Bytes

/-- The components of a path below the root. -/
abbrev FilePath := List String

abbrev Disk := World FilePath

abbrev Act (α : Type) := Prog FilePath StorageError α

/-- The settings of the store, with the variable that it reads later. -/
structure Store where
  fsyncWrites : Bool
  shardLevels : Nat
  bytesPerLevel : Nat
  verifyBlocksOnWrite : Bool
  deriving Repr, DecidableEq

/-! ## Paths -/

def fileExt : String := ".data"

def hexDigit (n : Nat) : Char :=
  "0123456789abcdef".toList.getD n '0'

def toHex (bytes : Bytes) : String :=
  String.ofList (bytes.flatMap fun b => [hexDigit (b.toNat / 16), hexDigit (b.toNat % 16)])

section
variable (cr : Crates)

def cidEntropy32 (cid : Cid) : Bytes :=
  if 32 ≤ cid.hash.digest.length then cid.hash.digest.take 32
  else cr.blake3 (cr.cidToBytes cid)

/-- `split_geometry`: the bytes at even and at odd places. -/
def splitGeometry (cid : Cid) : Bytes × Bytes :=
  let h := cidEntropy32 cr cid
  ((List.range 16).map fun i => byteAt h (i * 2), (List.range 16).map fun i => byteAt h (i * 2 + 1))

/-- The directories of a block: one for each level, as long as there are bytes. -/
def shardDirs (bytesPerLevel : Nat) (base : Bytes) (shardLevels : Nat) : FilePath :=
  let starts := (List.range shardLevels).map (· * bytesPerLevel)
  (starts.takeWhile (· < base.length)).map fun start =>
    toHex ((base.take (min (start + bytesPerLevel) base.length)).drop start)

def blockPath (st : Store) (cid : Cid) : FilePath :=
  shardDirs st.bytesPerLevel (splitGeometry cr cid).1 st.shardLevels ++
    [cr.cidToString cid ++ fileExt]

end

/-! ## Files -/

/-- Opening a file with `create_new`; `false` if it exists. -/
def createNew (r : FilePath) : Act Bool := do
  attempt (.openFile r)
  if ((← get).files r).isSome then return false
  else
    modify fun w => w.setFile r []
    return true

def removeFile (r : FilePath) (notFound : StorageError) : Act Unit := do
  attempt (.remove r)
  if ((← get).files r).isNone then throw notFound
  modify fun w => { w with files := fun r' => if r' = r then none else w.files r' }

/-- Seeking to a position that the file system takes. -/
def seekTo (r : FilePath) (start : Nat) : Act Unit := do
  attempt (.seek r)
  if (← get).maxOffset < start then throw (.ioError .other)

/-- `name.strip_suffix(FILE_EXT)`. -/
def stripExt (name : String) : Option String :=
  let chars := name.toList
  let ext := fileExt.toList
  if ext <:+ chars then some (String.ofList (chars.take (chars.length - ext.length))) else none

/-- The files of the tree: the paths at which a file was opened and still is. The log has each
path that was opened, and a file is made by opening it. -/
def treeFiles (w : Disk) : List FilePath :=
  (w.log.filterMap fun
    | .openFile path => some path
    | _ => none).eraseDups.filter fun path => (w.files path).isSome

/-- `walk_block_files`: the directories of the files are read one after the other. A directory
without a file gives nothing and is left out. -/
def walkBlockFiles : Act (List FilePath) := do
  let files := treeFiles (← get)
  let dirs := (files.flatMap fun path => path.dropLast.inits).eraseDups
  dirs.foldlM (fun _ dir => attempt (.openFile dir)) ()
  return files.filter fun path => (path.getLast?.bind stripExt).isSome

/-! ## Calls -/

section
variable (cr : Crates) (st : Store)

def putBlock (block : Block) : Act Unit := do
  let path := blockPath cr st block.cid
  attempt .createDir
  if ← createNew path then
    writeAllAt path 0 block.data
    if st.fsyncWrites then attempt (.sync path)

def putMany (blocks : List Block) : Act Unit :=
  if blocks = [] then pure ()
  else do
    lift (verifyBlocks cr st.verifyBlocksOnWrite blocks)
    blocks.foldlM (fun _ block => putBlock cr st block) ()

def get (cid : Cid) : Act Block := do
  let data ← readFile (blockPath cr st cid) (.blockNotFound (cr.cidToString cid))
  return { cid, data }

/-- `get_range`: the bytes, and the length of the file. -/
def getRange (cid : Cid) (start len : UInt64) : Act (Bytes × Nat) := do
  let path := blockPath cr st cid
  openFile path (.blockNotFound (cr.cidToString cid))
  let totalSize ← fileLen path
  seekTo path start.toNat
  let toRead := min len.toNat (totalSize - start.toNat)
  match ← readExactAt path start.toNat toRead with
  | some buf => return (buf, totalSize)
  | none => throw (.ioError .unexpectedEof)

def has (cid : Cid) : Act Bool := fileExists (blockPath cr st cid)

def delete (cid : Cid) : Act Unit :=
  removeFile (blockPath cr st cid) (.blockNotFound (cr.cidToString cid))

/-- `list_cids`: an error counts as an empty list. -/
def listCids : Act (List Cid) := do
  match ← captured walkBlockFiles with
  | .error _ => return []
  | .ok files =>
    return files.filterMap fun path => (path.getLast?.bind stripExt).bind cr.cidOfString

end

end Storage.GeomTree
