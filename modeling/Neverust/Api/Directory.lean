import Neverust.Api.Types

/-!
# Directories of uploaded files (`api.rs`)

`archivist_create_directory` builds a tree from the paths of its entries and stores one directory
manifest for each node of the tree, the subdirectories of a node before the node.
-/

namespace Api

open Rust Storage Request FolderManifest

structure CreateDirectoryEntryRequest where
  path : String
  cid : String
  size : Option UInt64
  mimetype : Option String
  deriving Repr, DecidableEq

structure CreateDirectoryRequest where
  entries : List CreateDirectoryEntryRequest
  name : Option String
  deriving Repr, DecidableEq

/-- A file with the directories of its path. -/
structure InputEntry where
  dirs : List String
  filename : String
  cid : Cid
  size : UInt64
  mimetype : String
  deriving Repr, DecidableEq

/-! ## The tree -/

/-- A directory: its files in the order they were given, its subdirectories by name. -/
inductive DirNode
  | mk (name : String) (files : List DirectoryEntry) (subdirs : List (String × DirNode))

/-- `entry(k).or_insert(new)` of a `BTreeMap`, and a change of the value. -/
def upsert {α : Type} (k : String) (new : α) (f : α → α) : List (String × α) → List (String × α)
  | [] => [(k, f new)]
  | (k', v) :: rest =>
    if k = k' then (k', f v) :: rest
    else if k < k' then (k, f new) :: (k', v) :: rest
    else (k', v) :: upsert k new f rest

namespace DirNode

/-- The file goes to the directory at the end of the path. -/
def insert (file : DirectoryEntry) : List String → DirNode → DirNode
  | [], mk name files subdirs => mk name (files ++ [file]) subdirs
  | part :: rest, mk name files subdirs =>
    mk name files (upsert part (mk part [] []) (insert file rest) subdirs)

/-- A root with one subdirectory and no files gives way to the subdirectory. -/
def promote : DirNode → DirNode
  | mk _ [] [(_, d)] => d.promote
  | d => d

end DirNode

/-- The order of the entries of a directory: directories first, then by name. -/
def entryLe (a b : DirectoryEntry) : Bool :=
  match a.isDirectory, b.isDirectory with
  | true, false => true
  | false, true => false
  | _, _ => a.name ≤ b.name

def buildTree (name : Option String) (entries : List InputEntry) : DirNode :=
  let root := entries.foldl
    (fun (root : DirNode) e =>
      root.insert { name := e.filename, cid := e.cid, size := e.size, isDirectory := false,
                    mimetype := e.mimetype } e.dirs)
    (DirNode.mk (name.getD "") [] [])
  root.promote

/-! ## The entries of a request -/

/-- The parts of a path: both slashes separate, empty parts do not count. -/
def pathParts (path : String) : List String :=
  let normalized := path.toList.map fun c => if c = '\\' then '/' else c
  ((normalized.splitOn '/').filter (· ≠ [])).map String.ofList

section
variable (cr : Crates) (px : Prost)

/-- The size of an entry, from the store if the request lacks it. -/
def resolveSize (cid : Cid) : Option UInt64 → Handler UInt64
  | some size => pure size
  | none => do
    match ← storeCall (.get cid) with
    | .error _ => pure 0
    | .ok block =>
      let len := UInt64.ofNat block.data.length
      if cid.codec = Manifest.manifestCodec then
        match Manifest.fromBlock cr px block with
        | .ok m => pure m.datasetSize
        | .error _ => pure len
      else pure len

def readEntry (i : Nat) (entry : CreateDirectoryEntryRequest) : Handler (Option InputEntry) := do
  match cr.cidOfString entry.cid with
  | none => liftM (.error (.err (.invalidCid (some i) entry.cid)) : Result ApiError _)
  | some cid =>
    let parts := pathParts entry.path
    match parts.getLast? with
    | none => pure none
    | some filename =>
      if ".." ∈ parts then
        liftM (.error (.err (.badRequest
          ("Invalid path (directory traversal): " ++ entry.path))) : Result ApiError _)
      else do
        let size ← resolveSize cr px cid entry.size
        return some { dirs := parts.dropLast, filename, cid, size,
                      mimetype := entry.mimetype.getD "" }

def readEntries (entries : List CreateDirectoryEntryRequest) : Handler (List InputEntry) :=
  entries.zipIdx.foldlM
    (fun inputs p => do
      let input ← readEntry cr px p.2 p.1
      return inputs ++ input.toList)
    []

/-! ## The manifests -/

/-- The directory manifest of a node, once its entries are known. -/
def storeDirectory (name : String) (entries : List DirectoryEntry) : Handler (Cid × UInt64) := do
  let dir ← liftM (DirectoryManifest.new (entries.mergeSort entryLe) name : Result ApiError _)
  let block ← liftM (wrap (fun e => ApiError.internal (.directoryBlock e)) (dir.toBlock cr px))
  putMany .storeDirectory [block]
  return (block.cid, dir.totalSize)

mutual

/-- `build_inner`. -/
def buildInner : DirNode → Handler (Cid × UInt64)
  | .mk name files subdirs => do
    let dirs ← buildSubdirs subdirs
    storeDirectory cr px name (dirs ++ files)

def buildSubdirs : List (String × DirNode) → Handler (List DirectoryEntry)
  | [] => pure []
  | (name, subdir) :: rest => do
    let (cid, size) ← buildInner subdir
    let entries ← buildSubdirs rest
    return { name, cid, size, isDirectory := true, mimetype := "" } :: entries

end

/-- `archivist_create_directory`: the CID, the total size and the number of files it reports. -/
def archivistCreateDirectory (req : CreateDirectoryRequest) : Handler (Cid × UInt64 × Nat) := do
  if req.entries = [] then
    liftM (.error (.err (.badRequest "No entries provided")) : Result ApiError _)
  else do
    let inputs ← readEntries cr px req.entries
    let (rootCid, totalSize) ← buildInner cr px (buildTree req.name inputs)
    return (rootCid, totalSize, inputs.length)

end

end Api
