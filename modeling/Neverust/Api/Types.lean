import Neverust.FolderManifest
import Neverust.Storage.Backend
import Neverust.Tree.BlockList

/-!
# Handlers of the HTTP API: errors and requests

A handler is a program that makes requests: calls of the block store, the start of a task and the
wait for one of its tasks. A task calls the block store only.
-/

namespace Api

open Rust Storage

/-! ## Errors -/

/-- Why a batch of raw blocks cannot be hashed. -/
inductive HashFailure
  | block (e : CidBlake3.CidError)
  | workerPanicked
  | missingResult
  deriving Repr, DecidableEq

/-- The cases of `ApiError::Internal`. -/
inductive Internal
  | bodyStream (e : String)
  | hashBatch (e : HashFailure)
  | storeBatch (e : StorageError)
  | pipelineEnded
  | batchTask
  | cidCount (expected got : Nat)
  | slotOutOfBounds (pos slots : Nat)
  | missingSlot
  | createTree (e : Tree.TreeError)
  | treeCid (e : Tree.TreeError)
  | metadataBlock (e : CidBlake3.CidError)
  | storeMetadata (e : StorageError)
  | encodeManifest (e : ManifestError)
  | storeManifest (e : StorageError)
  | createBlock (e : CidBlake3.CidError)
  | storeBlock (e : StorageError)
  | retrieveBlock (e : StorageError)
  | decodeManifest (e : ManifestError)
  | missingMetadata
  | fetchMetadata (cid : Cid) (e : StorageError)
  | deserializeMetadata (e : Tree.TreeError)
  | countMismatch (got expected : Nat)
  | fetchBlock (cid : Cid) (e : StorageError)
  | sizeMismatch (got expected : Nat)
  | directoryBlock (e : FolderManifest.DirectoryManifestError)
  | storeDirectory (e : StorageError)
  deriving Repr, DecidableEq

/-- The texts of the errors that an API error quotes; `parse` gives that of a text that is not a
CID. -/
structure Display where
  parse : String → String
  cid : Cid → String
  cidError : CidBlake3.CidError → String
  storage : StorageError → String
  manifest : ManifestError → String
  directory : FolderManifest.DirectoryManifestError → String
  join : String

def HashFailure.text (d : Display) : HashFailure → String
  | .block e => d.cidError e
  | .workerPanicked => "Upload hash worker panicked"
  | .missingResult => "Missing hashed block result"

def Internal.text (d : Display) : Internal → String
  | .bodyStream e => "Failed to read body stream: " ++ e
  | .hashBatch e => "Failed to hash upload batch: " ++ e.text d
  | .storeBatch e => "Failed to store block batch: " ++ d.storage e
  | .pipelineEnded => "Upload pipeline ended unexpectedly"
  | .batchTask => "Upload batch task failed: " ++ d.join
  | .cidCount expected got => s!"Upload batch CID count mismatch: expected {expected}, got {got}"
  | .slotOutOfBounds pos slots => s!"Upload CID slot out of bounds: {pos} >= {slots}"
  | .missingSlot => "Upload pipeline missing CID slot"
  | .createTree e => "Failed to create tree: " ++ e.text
  | .treeCid e => "Failed to compute tree CID: " ++ e.text
  | .metadataBlock e => "Failed to create tree metadata block: " ++ d.cidError e
  | .storeMetadata e => "Failed to store tree metadata: " ++ d.storage e
  | .encodeManifest e => "Failed to encode manifest: " ++ d.manifest e
  | .storeManifest e => "Failed to store manifest: " ++ d.storage e
  | .createBlock e => "Failed to create block: " ++ d.cidError e
  | .storeBlock e => "Failed to store block: " ++ d.storage e
  | .retrieveBlock e => "Failed to retrieve block: " ++ d.storage e
  | .decodeManifest e => "Failed to decode manifest: " ++ d.manifest e
  | .missingMetadata => "Manifest missing metadata CID in filename field"
  | .fetchMetadata cid e => "Failed to fetch tree metadata " ++ d.cid cid ++ ": " ++ d.storage e
  | .deserializeMetadata e => "Failed to deserialize tree metadata: " ++ e.text
  | .countMismatch got expected =>
    s!"Block count mismatch: tree has {got} blocks but manifest expects {expected}"
  | .fetchBlock cid e => "Failed to fetch block " ++ d.cid cid ++ ": " ++ d.storage e
  | .sizeMismatch got expected =>
    s!"Data size mismatch: assembled {got} bytes but manifest expects {expected} bytes"
  | .directoryBlock e => "Failed to create directory block: " ++ d.directory e
  | .storeDirectory e => "Failed to store directory block: " ++ d.storage e

/-- `invalidCid` is the `BadRequest` for a text that is not a CID, of a path or of an entry. -/
inductive ApiError
  | badRequest (msg : String)
  | invalidCid (entry : Option Nat) (text : String)
  | notFound (msg : String)
  | internal (e : Internal)
  deriving Repr, DecidableEq

def ApiError.text (d : Display) : ApiError → String
  | .badRequest msg => msg
  | .invalidCid none text => "Invalid CID: " ++ d.parse text
  | .invalidCid (some i) text => s!"Entry {i} invalid CID: " ++ d.parse text
  | .notFound msg => msg
  | .internal e => e.text d

/-! ## Requests -/

/-- A task of an upload. -/
abbrev Task := Request.Prog StoreReq StoreAns (Stop ApiError) (List Cid)

inductive ApiReq
  | store (r : StoreReq)
  | spawn (startIdx expectedLen : Nat) (task : Task)
  | next

/-- The answer to `next` is the result of a task that has ended, `none` if no task is left. -/
abbrev ApiAns : ApiReq → Type
  | .store r => StoreAns r
  | .spawn _ _ _ => Unit
  | .next => Option (Nat × Nat × Except (Stop ApiError) (List Cid))

abbrev Handler (α : Type) := Request.Prog ApiReq ApiAns (Stop ApiError) α

/-- A call that fails with an error of its own, inside a handler. -/
def wrap {ε α : Type} (f : ε → ApiError) : Except ε α → Result ApiError α
  | .ok a => .ok a
  | .error e => .error (.err (f e))

/-- The same for a call that can also panic. -/
def wrapCall {ε α : Type} (f : ε → ApiError) : Result ε α → Result ApiError α
  | .ok a => .ok a
  | .error (.err e) => .error (.err (f e))
  | .error (.panic p) => .error (.panic p)
  | .error .fuel => .error .fuel

/-- A request of a handler. -/
def ask (r : ApiReq) : Handler (ApiAns r) := Request.Prog.request r

def storeCall (r : StoreReq) : Handler (StoreAns r) := ask (.store r)

def putMany (fail : StorageError → Internal) (blocks : List Block) : Handler Unit := do
  let r ← storeCall (.putMany blocks)
  liftM (wrap (fun e => .internal (fail e)) r)

/-- A `get` whose miss and whose other errors are reported in their own ways. -/
def getBlock (missing : String) (fail : StorageError → Internal) (cid : Cid) : Handler Block := do
  let r ← storeCall (.get cid)
  liftM (wrap (fun
    | .blockNotFound _ => .notFound missing
    | e => .internal (fail e)) r)

end Api
