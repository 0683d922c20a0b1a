import Mathlib.Logic.Function.Basic
import Neverust.Api.Peers

/-!
# Pins (`api.rs`)

A pin or a recovery makes a record and starts a task that fetches the content; an unpin removes the
record and then deletes the block. Records and blocks are kept in two places without a common lock,
so the steps of the requests and the tasks interleave: `PinEvent` is the next request or the next
step of a task. The answers of the peers that a task will ask come with its request.
-/

namespace Api

open Rust Storage Request

structure IpfsClusterPinRequest where
  name : Option String := none
  mode : Option String := none
  replicationFactorMin : Option Int32 := none
  replicationFactorMax : Option Int32 := none
  userAllocations : List String := []
  metadata : List (String × String) := []
  neverustTags : List (String × String) := []
  deriving DecidableEq

/-- The statuses of a record. -/
inductive PinStatus
  | queued
  | pinning
  | pinned
  | pinError
  deriving Repr, DecidableEq

structure IpfsClusterPinRecord where
  cid : String
  name : Option String
  mode : String
  replicationFactorMin : Int32
  replicationFactorMax : Int32
  userAllocations : List String
  metadata : List (String × String)
  neverustTags : List (String × String)
  status : PinStatus
  error : Option PinError
  deriving DecidableEq

def IpfsClusterPinRecord.fromRequest (cid : String) (req : IpfsClusterPinRequest) :
    IpfsClusterPinRecord where
  cid
  name := req.name
  mode := req.mode.getD "recursive"
  replicationFactorMin := req.replicationFactorMin.getD (-1)
  replicationFactorMax := req.replicationFactorMax.getD (-1)
  userAllocations := req.userAllocations
  metadata := req.metadata
  neverustTags := req.neverustTags
  status := .queued
  error := none

/-- What is left to do of a background task, or of an unpin whose record is removed. -/
inductive PinTask
  | queued (cidStr : String) (peers : List PeerAnswer)
  | running (cidStr : String) (rest : Handler (Except PinError Unit))
  | deleting (cid : Cid)
  | finished

structure PinState (B : Backend) where
  pins : String → Option IpfsClusterPinRecord
  store : B.State
  tasks : List PinTask

variable {B : Backend}

namespace PinState

/-- `set_ipfs_cluster_pin_status`. -/
def setStatus (s : PinState B) (cidStr : String) (status : PinStatus) (error : Option PinError) :
    PinState B :=
  match s.pins cidStr with
  | some record =>
    { s with pins := Function.update s.pins cidStr (some { record with status, error }) }
  | none => s

def spawn (s : PinState B) (task : PinTask) : PinState B := { s with tasks := s.tasks ++ [task] }

section
variable (cr : Crates)

/-- `ipfs_cluster_pin_cid`. -/
def pinCid (s : PinState B) (cidStr : String) (body : Option IpfsClusterPinRequest)
    (peers : List PeerAnswer) : Except ApiError IpfsClusterPinRecord × PinState B :=
  match cr.cidOfString cidStr with
  | none => (.error (.invalidCid none cidStr), s)
  | some _ =>
    let record := IpfsClusterPinRecord.fromRequest cidStr (body.getD {})
    (.ok record, spawn { s with pins := Function.update s.pins cidStr (some record) }
      (.queued cidStr peers))

/-- `ipfs_cluster_recover_pin`, which does not parse the CID. The record that it answers with is
read later. -/
def recoverPin (s : PinState B) (cidStr : String) (peers : List PeerAnswer) : PinState B :=
  let record := (s.pins cidStr).getD (.fromRequest cidStr {})
  spawn { s with
    pins := Function.update s.pins cidStr (some { record with status := .queued, error := none }) }
    (.queued cidStr peers)

/-- `ipfs_cluster_unpin_cid` up to the removal of the record. -/
def unpinCid (s : PinState B) (cidStr : String) : Except ApiError Unit × PinState B :=
  match cr.cidOfString cidStr with
  | none => (.error (.invalidCid none cidStr), s)
  | some cid =>
    (.ok (), spawn { s with pins := Function.update s.pins cidStr none } (.deleting cid))

/-- The answer to a request of a task. A task only calls the store. -/
def answer : (r : ApiReq) → B.State → ApiAns r × B.State
  | .store r, store => B.answer r store
  | .spawn _ _ _, store => ((), store)
  | .next, store => (none, store)

/-- The next step of a task: what is left of it, and the state. -/
def stepTask (s : PinState B) : PinTask → PinTask × PinState B
  | .queued cidStr peers =>
    (.running cidStr (ensurePinLocally cr cidStr peers), s.setStatus cidStr .pinning none)
  | .running cidStr (.ask r k) =>
    let (x, store) := answer r s.store
    (.running cidStr (k x), { s with store })
  | .running cidStr (.done (.ok (.ok ()))) => (.finished, s.setStatus cidStr .pinned none)
  | .running cidStr (.done (.ok (.error e))) => (.finished, s.setStatus cidStr .pinError (some e))
  | .running _ (.done (.error _)) => (.finished, s)
  | .deleting cid => (.finished, { s with store := (B.answer (.delete cid) s.store).2 })
  | .finished => (.finished, s)

end

end PinState

/-! ## Runs -/

inductive PinCall
  | pin (cidStr : String) (body : Option IpfsClusterPinRequest) (peers : List PeerAnswer)
  | recover (cidStr : String) (peers : List PeerAnswer)
  | unpin (cidStr : String)

/-- The text of the CID that a request is for. -/
def PinCall.cidStr : PinCall → String
  | .pin cidStr _ _ => cidStr
  | .recover cidStr _ => cidStr
  | .unpin cidStr => cidStr

inductive PinEvent
  | call (c : PinCall)
  | step (i : Nat)

def PinCall.apply (cr : Crates) (s : PinState B) : PinCall → PinState B
  | .pin cidStr body peers => (s.pinCid cr cidStr body peers).2
  | .recover cidStr peers => s.recoverPin cidStr peers
  | .unpin cidStr => (s.unpinCid cr cidStr).2

def PinEvent.apply (cr : Crates) (s : PinState B) : PinEvent → PinState B
  | .call c => c.apply cr s
  | .step i =>
    match s.tasks[i]? with
    | some task =>
      let (task', s') := s.stepTask cr task
      { s' with tasks := s'.tasks.set i task' }
    | none => s

def PinState.run (cr : Crates) (s : PinState B) (events : List PinEvent) : PinState B :=
  events.foldl (PinEvent.apply cr) s

end Api
