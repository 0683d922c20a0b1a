import Mathlib.Data.List.FinRange
import Mathlib.Logic.Function.Basic
import Neverust.Discv5.KBucket

/-!
# The routing table (`kbucket.rs`)

A node is in the bucket of the highest bit in which its key differs from the local one. Every access
to a bucket first lets its waiting node take its place. Each call is given the clock it reads:
`clock k` is the reading that comes after `k` others. `none` is a panic.
-/

namespace Discv5

/-- `NUM_BUCKETS`. -/
abbrev numBuckets : Nat := 256

/-- `Key::distance`. -/
def distance (a b : Key) : Key := a ^^^ b

abbrev BucketIndex := Fin numBuckets

/-- `U256::bit`. -/
def bit (d : Key) (i : BucketIndex) : Bool := d.getLsbD i

/-- `BucketIndex::new`: a distance that is not 0 has `255 - log2` leading zeros. -/
def BucketIndex.new (d : Key) : Option BucketIndex :=
  if h : d = 0 then none
  else some ⟨d.toNat.log2, (Nat.log2_lt fun h0 => h (BitVec.eq_of_toNat_eq h0)).2 d.isLt⟩

/-- `Key::log2_distance`. -/
def log2Distance (a b : Key) : Option Nat :=
  if distance a b = 0 then none else some ((distance a b).toNat.log2 + 1)

/-- `kbucket::InsertResult`. -/
inductive TableInsertResult
  | inserted
  | pending (disconnected : Key)
  | statusUpdated (promotedToConnected : Bool)
  | valueUpdated
  | updated (promotedToConnected : Bool)
  | updatedPending
  | failed (reason : FailureReason)
  deriving Repr, DecidableEq

def UpdateResult.isFailed : UpdateResult → Bool
  | .failed _ => true
  | _ => false

structure KBucketsTable (V : Type) where
  localKey : Key
  buckets : BucketIndex → KBucket V
  appliedPending : List (AppliedPending V)
  tableFilter : Option (Filter V)

/-! ## The order in which buckets are visited -/

inductive ClosestBucketsIterState
  | start (i : BucketIndex)
  | zoomIn (i : BucketIndex)
  | zoomOut (i : BucketIndex)
  | done

structure ClosestBucketsIter where
  distance : Key
  state : ClosestBucketsIterState

/-- The bucket with which an iteration starts. -/
def startBucket (d : Key) : BucketIndex := (BucketIndex.new d).getD 0

namespace ClosestBucketsIter

def new (distance : Key) : ClosestBucketsIter := { distance, state := .start (startBucket distance) }

/-- The buckets below `i`, from the highest. -/
def below (i : BucketIndex) : List BucketIndex :=
  ((List.finRange numBuckets).filter (· < i)).reverse

/-- The buckets above `i`, from the lowest. -/
def above (i : BucketIndex) : List BucketIndex := (List.finRange numBuckets).filter (i < ·)

variable (it : ClosestBucketsIter)

def nextIn (i : BucketIndex) : Option BucketIndex := (below i).find? fun j => bit it.distance j

def nextOut (i : BucketIndex) : Option BucketIndex := (above i).find? fun j => !bit it.distance j

def next : Option BucketIndex × ClosestBucketsIter :=
  match it.state with
  | .start i => (some i, { it with state := .zoomIn i })
  | .zoomIn i =>
    match it.nextIn i with
    | some i => (some i, { it with state := .zoomIn i })
    | none => (some 0, { it with state := .zoomOut 0 })
  | .zoomOut i =>
    match it.nextOut i with
    | some i => (some i, { it with state := .zoomOut i })
    | none => (none, { it with state := .done })
  | .done => (none, it)

/-- The buckets that at most so many calls of `next` give. -/
def visits : Nat → ClosestBucketsIter → List BucketIndex
  | 0, _ => []
  | calls + 1, it =>
    match it.next with
    | (some i, it) => i :: visits calls it
    | (none, _) => []

end ClosestBucketsIter

/-- All buckets of an iteration: the one that starts, 255 on the way in and 256 on the way out at
most, and then none. -/
def closestBuckets (distance : Key) : List BucketIndex :=
  ClosestBucketsIter.visits (2 * numBuckets + 1) (.new distance)

/-- The target at distance `d` has the first bucket visited twice. -/
def Twice (d : Key) (i : BucketIndex) : Prop := i = 0 ∧ (bit d 0 = true ∨ d = 0)

instance (d : Key) (i : BucketIndex) : Decidable (Twice d i) := inferInstanceAs (Decidable (_ ∧ _))

/-- How often an iteration around a target gives the node of a key. -/
def KBucketsTable.timesGiven (localKey target k : Key) : Nat :=
  if k = localKey ^^^ 1 ∧ (bit (distance localKey target) 0 = true ∨ localKey = target) then 2 else 1

/-! ## The table -/

namespace KBucketsTable

variable {V : Type}

def new (localKey : Key) (pendingTimeout maxIncoming : Nat)
    (tableFilter bucketFilter : Option (Filter V)) : KBucketsTable V :=
  { localKey
    buckets := fun _ => .new pendingTimeout maxIncoming bucketFilter
    appliedPending := []
    tableFilter }

variable (t : KBucketsTable V)

/-- `get_index`. -/
def index (key : Key) : Option BucketIndex := BucketIndex.new (distance t.localKey key)

def setBucket (i : BucketIndex) (bucket : KBucket V) : KBucketsTable V :=
  { t with buckets := Function.update t.buckets i bucket }

/-- The call of `apply_pending` with which every access to a bucket begins. -/
def applyPendingAt (now : Nat) (i : BucketIndex) : Option (KBucketsTable V) := do
  let (applied, bucket) ← (t.buckets i).applyPending now
  return { t.setBucket i bucket with appliedPending := t.appliedPending ++ applied.toList }

/-- `table_iter`. -/
def tableIter : List V :=
  (List.finRange numBuckets).flatMap fun i => (t.buckets i).nodes.map Node.value

section
variable [DecidableEq V]

/-- Whether the node is there with this value. -/
def isDuplicate (key : Key) (value : V) : Bool :=
  ((t.index key).bind fun i => (t.buckets i).get key).any fun node => node.value = value

def passesTableFilter (key : Key) (value : V) : Bool :=
  t.tableFilter.all fun filter => t.isDuplicate key value || filter value t.tableIter

def updateNodeStatus (clock : Nat → Nat) (key : Key) (state : ConnectionState)
    (direction : Option ConnectionDirection) : Option (UpdateResult × KBucketsTable V) :=
  match t.index key with
  | some i => do
    let t ← t.applyPendingAt (clock 0) i
    let (result, bucket) ← (t.buckets i).updateStatus (clock 1) key state direction
    return (result, t.setBucket i bucket)
  | none => some (.notModified, t)

/-- What `update_node` answers for the results of its two updates. -/
def nodeResult (update status : UpdateResult) : UpdateResult :=
  match update, status with
  | _, .failed _ => status
  | .failed _, _ => update
  | _, .updatedAndPromoted => .updatedAndPromoted
  | .updatedPending, _ => .updatedPending
  | _, .updatedPending => .updatedPending
  | .notModified, .notModified => .notModified
  | _, _ => .updated

def updateNode (clock : Nat → Nat) (key : Key) (value : V) (state : Option ConnectionState) :
    Option (UpdateResult × KBucketsTable V) :=
  let passed := t.passesTableFilter key value
  match t.index key with
  | some i => do
    let t ← t.applyPendingAt (clock 0) i
    if !passed then
      let (_, bucket) ← (t.buckets i).remove (clock 1) key
      return (.failed .tableFilter, t.setBucket i bucket)
    let (update, bucket) ← (t.buckets i).updateValue key value
    if update.isFailed then return (update, t.setBucket i bucket)
    match state with
    | some state =>
      let (status, bucket) ← bucket.updateStatus (clock 1) key state none
      return (nodeResult update status, t.setBucket i bucket)
    | none => return (nodeResult update .notModified, t.setBucket i bucket)
  | none => some (.notModified, t)

/-- What `insert_or_update` answers for a new node; the node was looked for before. -/
def insertedResult : BucketInsertResult → Option TableInsertResult
  | .nodeExists => none
  | .full => some (.failed .bucketFull)
  | .tooManyIncoming => some (.failed .tooManyIncoming)
  | .failedFilter => some (.failed .bucketFilter)
  | .pending disconnected => some (.pending disconnected)
  | .inserted => some .inserted

/-- What `insert_or_update` answers for the results of its two updates. -/
def updatedResult (value status : UpdateResult) : Option TableInsertResult :=
  match value, status with
  | .updated, .updated => some (.updated false)
  | .updated, .updatedAndPromoted => some (.updated true)
  | .updated, .notModified | .updated, .updatedPending => some .valueUpdated
  | .notModified, .updated => some (.statusUpdated false)
  | .notModified, .updatedAndPromoted => some (.statusUpdated true)
  | .notModified, .notModified => some (.updated false)
  | .updatedPending, _ | _, .updatedPending => some .updatedPending
  | .failed reason, _ => some (.failed reason)
  | _, .failed _ | .updatedAndPromoted, _ => none

def insertOrUpdate (clock : Nat → Nat) (key : Key) (value : V) (status : NodeStatus) :
    Option (TableInsertResult × KBucketsTable V) :=
  let passed := t.passesTableFilter key value
  match t.index key with
  | some i => do
    let t ← t.applyPendingAt (clock 0) i
    if !passed then
      let (_, bucket) ← (t.buckets i).remove (clock 1) key
      return (.failed .tableFilter, t.setBucket i bucket)
    if ((t.buckets i).position key).isNone then
      let (result, bucket) ← (t.buckets i).insert (clock 1) { key, value, status }
      return (← insertedResult result, t.setBucket i bucket)
    let (updateStatus, bucket) ←
      (t.buckets i).updateStatus (clock 1) key status.state (some status.direction)
    if updateStatus.isFailed then return (.failed .tooManyIncoming, t.setBucket i bucket)
    let (updateValue, bucket) ← bucket.updateValue key value
    return (← updatedResult updateValue updateStatus, t.setBucket i bucket)
  | none => some (.failed .invalidSelfUpdate, t)

end

/-- Whether a node was removed. -/
def remove (clock : Nat → Nat) (key : Key) : Option (Bool × KBucketsTable V) :=
  match t.index key with
  | some i => do
    let t ← t.applyPendingAt (clock 0) i
    let (removed, bucket) ← (t.buckets i).remove (clock 1) key
    return (removed, t.setBucket i bucket)
  | none => some (false, t)

/-- `entry`, whose callers read the entry: the node, when it is in its bucket. -/
def entry (clock : Nat → Nat) (key : Key) : Option (Option (Node V) × KBucketsTable V) :=
  match t.index key with
  | some i => do
    let t ← t.applyPendingAt (clock 0) i
    return ((t.buckets i).get key, t)
  | none => some (none, t)

/-- The nodes of some buckets, one bucket after another. -/
def iterFrom (clock : Nat → Nat) : List BucketIndex → Nat → KBucketsTable V →
    Option (List (Node V) × KBucketsTable V)
  | [], _, t => some ([], t)
  | i :: is, k, t => do
    let t ← t.applyPendingAt (clock k) i
    let (nodes, t') ← iterFrom clock is (k + 1) t
    return ((t.buckets i).nodes ++ nodes, t')

def iter (clock : Nat → Nat) : Option (List (Node V) × KBucketsTable V) :=
  iterFrom clock (List.finRange numBuckets) 0 t

/-- `iter_ref`. -/
def iterRef : List (Node V) := (List.finRange numBuckets).flatMap fun i => (t.buckets i).nodes

def takeAppliedPending : Option (AppliedPending V) × KBucketsTable V :=
  (t.appliedPending.head?, { t with appliedPending := t.appliedPending.tail })

/-- The first loop of `nodes_by_distances`: it stops when the buckets whose waiting node took its
place hold enough nodes. -/
def applyDistances (clock : Nat → Nat) (maxNodes : Nat) : List BucketIndex → Nat → Nat →
    KBucketsTable V → Option (KBucketsTable V)
  | [], _, _, t => some t
  | i :: is, k, nodeCount, t => do
    let (applied, bucket) ← (t.buckets i).applyPending (clock k)
    let t := { t.setBucket i bucket with appliedPending := t.appliedPending ++ applied.toList }
    if applied.isSome then
      let nodeCount := nodeCount + bucket.numEntries
      if maxNodes ≤ nodeCount then return t
      applyDistances clock maxNodes is (k + 1) nodeCount t
    else applyDistances clock maxNodes is (k + 1) nodeCount t

/-- The bucket of a log-2 distance in `1 ≤ d ≤ 256`. -/
def distanceBucket (d : Nat) : Option BucketIndex :=
  if h : 0 < d ∧ d ≤ numBuckets then some ⟨d - 1, by omega⟩ else none

/-- The second loop: nodes are pushed until there are enough; the one that reaches the limit is
pushed before the check. -/
def matchingNodes (maxNodes : Nat) : List (Node V) → List (Node V) → List (Node V)
  | acc, [] => acc
  | acc, node :: nodes =>
    let acc := acc ++ [node]
    if maxNodes ≤ acc.length then acc else matchingNodes maxNodes acc nodes

def nodesByDistances (clock : Nat → Nat) (log2Distances : List Nat) (maxNodes : Nat) :
    Option (List (Node V) × KBucketsTable V) := do
  let distances := log2Distances.filterMap distanceBucket
  let t ← applyDistances clock maxNodes distances 0 0 t
  return (matchingNodes maxNodes [] (distances.flatMap fun i => (t.buckets i).nodes), t)

/-- The nodes of a bucket, from the closest to the target. -/
def sortedNodes (target : Key) (nodes : List (Node V)) : List (Node V) :=
  nodes.mergeSort fun a b => distance target a.key ≤ distance target b.key

/-- The first `n` nodes of a `ClosestIter` whose buckets are yet to be visited. -/
def takeClosest (clock : Nat → Nat) (target : Key) : List BucketIndex → Nat → Nat → KBucketsTable V →
    Option (List (Node V) × KBucketsTable V)
  | [], _, _, t => some ([], t)
  | i :: is, k, n, t =>
    -- a bucket is visited only when another node is asked for
    if n = 0 then some ([], t)
    else do
      let t ← t.applyPendingAt (clock k) i
      let nodes := sortedNodes target (t.buckets i).nodes
      let (rest, t) ← takeClosest clock target is (k + 1) (n - nodes.length) t
      return (nodes.take n ++ rest, t)

/-- The first `n` nodes of `closest_keys`, `closest_values` and `closest_values_predicate`. -/
def closest (clock : Nat → Nat) (target : Key) (n : Nat) :
    Option (List (Node V) × KBucketsTable V) :=
  takeClosest clock target (closestBuckets (distance t.localKey target)) 0 n t

end KBucketsTable

/-! ## Runs -/

/-- One call on the table. -/
inductive TableOp (V : Type)
  | insertOrUpdate (key : Key) (value : V) (status : NodeStatus)
  | updateNode (key : Key) (value : V) (state : Option ConnectionState)
  | updateNodeStatus (key : Key) (state : ConnectionState) (direction : Option ConnectionDirection)
  | remove (key : Key)
  | entry (key : Key)
  | iter
  | nodesByDistances (log2Distances : List Nat) (maxNodes : Nat)
  | closest (target : Key) (n : Nat)
  | takeAppliedPending

inductive TableAnswer (V : Type)
  | inserted (result : TableInsertResult)
  | updated (result : UpdateResult)
  | removed (existed : Bool)
  | found (node : Option (Node V))
  | nodes (nodes : List (Node V))
  | applied (applied : Option (AppliedPending V))

namespace KBucketsTable

variable {V : Type} [DecidableEq V]

def apply (t : KBucketsTable V) (clock : Nat → Nat) :
    TableOp V → Option (TableAnswer V × KBucketsTable V)
  | .insertOrUpdate key value status =>
    (t.insertOrUpdate clock key value status).map fun r => (.inserted r.1, r.2)
  | .updateNode key value state =>
    (t.updateNode clock key value state).map fun r => (.updated r.1, r.2)
  | .updateNodeStatus key state direction =>
    (t.updateNodeStatus clock key state direction).map fun r => (.updated r.1, r.2)
  | .remove key => (t.remove clock key).map fun r => (.removed r.1, r.2)
  | .entry key => (t.entry clock key).map fun r => (.found r.1, r.2)
  | .iter => (t.iter clock).map fun r => (.nodes r.1, r.2)
  | .nodesByDistances ds maxNodes =>
    (t.nodesByDistances clock ds maxNodes).map fun r => (.nodes r.1, r.2)
  | .closest target n => (t.closest clock target n).map fun r => (.nodes r.1, r.2)
  | .takeAppliedPending => some (.applied t.takeAppliedPending.1, t.takeAppliedPending.2)

def run (t : KBucketsTable V) :
    List ((Nat → Nat) × TableOp V) → Option (List (TableAnswer V) × KBucketsTable V)
  | [] => some ([], t)
  | (clock, op) :: ops => do
    let (answer, t) ← t.apply clock op
    let (answers, t) ← t.run ops
    return (answer :: answers, t)

end KBucketsTable

end Discv5
