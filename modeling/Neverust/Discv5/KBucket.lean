import Mathlib.Data.List.Basic

/-!
# The buckets of the routing table (`kbucket/bucket.rs`)

A bucket lists its nodes from the least recently to the most recently connected one: first those
that are disconnected, then those that are connected. A connected node that comes to a full bucket
waits as its pending node until it may take the place of the first disconnected one.

`none` is a panic: an access outside the array of the nodes, or `unreachable!`. A key is its hash;
the preimage of a `NodeId` key is the same 256 bits. Instants and durations are natural numbers of
nanoseconds. Their sum is any number here, while `Instant + Duration` panics where the sum is too
late for an `Instant`: a `pending_timeout` that long is left out.
-/

namespace Discv5

abbrev Key := BitVec 256

/-- `MAX_NODES_PER_BUCKET`. -/
def maxNodesPerBucket : Nat := 16

inductive ConnectionDirection
  | incoming
  | outgoing
  deriving Repr, DecidableEq

inductive ConnectionState
  | connected
  | disconnected
  deriving Repr, DecidableEq

structure NodeStatus where
  direction : ConnectionDirection
  state : ConnectionState
  deriving Repr, DecidableEq

namespace NodeStatus

def isConnected (status : NodeStatus) : Bool := status.state = .connected

def isIncoming (status : NodeStatus) : Bool := status.direction = .incoming

/-- The status after an update. -/
def update (status : NodeStatus) (state : ConnectionState)
    (direction : Option ConnectionDirection) : NodeStatus :=
  { direction := direction.getD status.direction, state }

end NodeStatus

structure Node (V : Type) where
  key : Key
  value : V
  status : NodeStatus
  deriving Repr, DecidableEq

structure PendingNode (V : Type) where
  node : Node V
  replace : Nat
  deriving Repr, DecidableEq

/-- `Filter::filter`: whether a value may be inserted beside the others. -/
abbrev Filter (V : Type) := V → List V → Bool

structure KBucket (V : Type) where
  nodes : List (Node V)
  firstConnectedPos : Option Nat
  pending : Option (PendingNode V)
  pendingTimeout : Nat
  filter : Option (Filter V)
  maxIncoming : Nat

/-- `bucket::InsertResult`. -/
inductive BucketInsertResult
  | inserted
  | pending (disconnected : Key)
  | failedFilter
  | tooManyIncoming
  | full
  | nodeExists
  deriving Repr, DecidableEq

inductive FailureReason
  | tooManyIncoming
  | bucketFilter
  | tableFilter
  | keyNonExistent
  | bucketFull
  | invalidSelfUpdate
  deriving Repr, DecidableEq

inductive UpdateResult
  | updated
  | updatedAndPromoted
  | updatedPending
  | failed (reason : FailureReason)
  | notModified
  deriving Repr, DecidableEq

structure AppliedPending (V : Type) where
  inserted : Key
  evicted : Option (Node V)
  deriving Repr, DecidableEq

/-! ## The array of the nodes -/

section
variable {α : Type}

def arrayInsert (l : List α) (i : Nat) (a : α) : Option (List α) :=
  if i ≤ l.length ∧ l.length < maxNodesPerBucket then some (l.insertIdx i a) else none

def arrayPush (l : List α) (a : α) : Option (List α) := arrayInsert l l.length a

def arrayRemove (l : List α) (i : Nat) : Option (α × List α) :=
  l[i]?.map fun a => (a, l.eraseIdx i)

end

/-! ## Buckets -/

namespace KBucket

variable {V : Type}

def new (pendingTimeout maxIncoming : Nat) (filter : Option (Filter V)) : KBucket V :=
  { nodes := [], firstConnectedPos := none, pending := none, pendingTimeout, filter, maxIncoming }

variable (b : KBucket V)

def isFull : Bool := b.nodes.length = maxNodesPerBucket

def position (key : Key) : Option Nat := b.nodes.findIdx? fun node => node.key = key

def get (key : Key) : Option (Node V) := b.nodes.find? fun node => node.key = key

def numEntries : Nat := b.nodes.length

def isMaxIncoming : Bool :=
  b.maxIncoming ≤
    b.nodes.countP fun node => node.status.isConnected && node.status.isIncoming

/-- Whether the bucket filter lets a value in. -/
def passes (value : V) : Bool :=
  b.filter.all fun filter => filter value (b.nodes.map Node.value)

/-- `update_first_connected_pos_for_removal`, after the removal. -/
def updateFirstConnectedPosForRemoval (removedPos : Nat) : KBucket V :=
  { b with
    firstConnectedPos := b.firstConnectedPos.bind fun fcp =>
      if removedPos < fcp then some (fcp - 1)
      else if fcp < b.nodes.length then some fcp else none }

def insert (now : Nat) (node : Node V) : Option (BucketInsertResult × KBucket V) :=
  if (b.position node.key).isSome then some (.nodeExists, b)
  else if !b.passes node.value then some (.failedFilter, b)
  else
    -- a pending node of the same key is given up when the node is inserted
    let pending := b.pending.filter fun pending => pending.node.key ≠ node.key
    match node.status.state with
    | .connected =>
      if node.status.isIncoming && b.isMaxIncoming then some (.tooManyIncoming, b)
      else if b.isFull then
        if b.firstConnectedPos = some 0 ∨ b.pending.isSome then some (.full, b)
        else do
          let head ← b.nodes[0]?
          return (.pending head.key,
            { b with pending := some { node, replace := now + b.pendingTimeout } })
      else do
        let nodes ← arrayPush b.nodes node
        return (.inserted,
          { b with
            nodes
            firstConnectedPos := b.firstConnectedPos.or (some b.nodes.length)
            pending })
    | .disconnected =>
      if b.isFull then some (.full, b)
      else
        match b.firstConnectedPos with
        | some fcp => do
          let nodes ← arrayInsert b.nodes fcp node
          return (.inserted, { b with nodes, firstConnectedPos := some (fcp + 1), pending })
        | none => do
          let nodes ← arrayPush b.nodes node
          return (.inserted, { b with nodes, pending })

/-- The replacement of the first node of a full bucket by the pending node. -/
def replaceFirst (node : Node V) : Option (Option (AppliedPending V) × KBucket V) := do
  let head ← b.nodes[0]?
  if head.status.isConnected then return (none, b)
  else if !b.passes node.value then return (none, b)
  else if node.status.isConnected && node.status.isIncoming && b.isMaxIncoming then
    return (none, b)
  else if node.status.isConnected then
    let (evicted, nodes) ← arrayRemove b.nodes 0
    let firstConnectedPos := b.firstConnectedPos.elim (some nodes.length) fun p =>
      if 1 ≤ p then some (p - 1) else none
    let nodes ← arrayPush nodes node
    return (some { inserted := node.key, evicted := some evicted },
      { b with nodes, firstConnectedPos })
  else
    match b.firstConnectedPos with
    | some 0 => return (none, b)
    | some (insertPos + 1) =>
      let (evicted, nodes) ← arrayRemove b.nodes 0
      let nodes ← arrayInsert nodes insertPos node
      return (some { inserted := node.key, evicted := some evicted }, { b with nodes })
    | none =>
      let (evicted, nodes) ← arrayRemove b.nodes 0
      let nodes ← arrayPush nodes node
      return (some { inserted := node.key, evicted := some evicted }, { b with nodes })

def applyPending (now : Nat) : Option (Option (AppliedPending V) × KBucket V) :=
  match b.pending with
  | none => some (none, b)
  | some pending =>
    if pending.replace ≤ now then
      let b := { b with pending := none }
      if b.isFull then b.replaceFirst pending.node
      else do
        match ← b.insert now pending.node with
        | (.inserted, b) => return (some { inserted := pending.node.key, evicted := none }, b)
        | (.full, _) => none
        | (_, b) => return (none, b)
    else some (none, b)

/-- `update_pending`. -/
def updatePending (status : NodeStatus) : KBucket V :=
  { b with pending := b.pending.map fun p => { p with node := { p.node with status } } }

/-- `first_connected_pos` once `update_status` has taken the node out. -/
def adjustFirstConnectedPos (old : NodeStatus) (pos : Nat) (nodes : List (Node V)) : Option Nat :=
  match old.state with
  | .connected =>
    -- it was the last connected node
    if b.firstConnectedPos = some pos ∧ pos = nodes.length then none else b.firstConnectedPos
  | .disconnected => b.firstConnectedPos.bind fun p => if 1 ≤ p then some (p - 1) else none

def updateStatus (now : Nat) (key : Key) (state : ConnectionState)
    (direction : Option ConnectionDirection) : Option (UpdateResult × KBucket V) :=
  match b.position key with
  | some pos => do
    let (old, nodes) ← arrayRemove b.nodes pos
    let node := { old with status := old.status.update state direction }
    let firstConnectedPos := b.adjustFirstConnectedPos old.status pos nodes
    let pending := if pos = 0 ∧ state = .connected then none else b.pending
    match ← insert { b with nodes, firstConnectedPos, pending } now node with
    | (.inserted, b) =>
      let result :=
        if old.status = node.status then .notModified
        else if !old.status.isConnected && state = .connected then .updatedAndPromoted
        else .updated
      return (result, b)
    | (.tooManyIncoming, b) => return (.failed .tooManyIncoming, b)
    | (.failedFilter, b) => return (.failed .bucketFilter, b)
    | (.nodeExists, _) | (.full, _) | (.pending _, _) => none
  | none =>
    match b.pending with
    | some pending =>
      if pending.node.key = key then
        let node := { pending.node with status := pending.node.status.update state direction }
        some (.updatedPending, { b with pending := some { pending with node } })
      else some (.failed .keyNonExistent, b)
    | none => some (.failed .keyNonExistent, b)

def updateValue [DecidableEq V] (key : Key) (value : V) : Option (UpdateResult × KBucket V) :=
  match b.position key with
  | some pos => do
    let (node, nodes) ← arrayRemove b.nodes pos
    if node.value = value then
      return (.notModified, { b with nodes := ← arrayInsert nodes pos node })
    else
      let removed := { b with nodes }
      if !removed.passes value then
        return (.failed .bucketFilter, removed.updateFirstConnectedPosForRemoval pos)
      else return (.updated, { b with nodes := ← arrayInsert nodes pos { node with value } })
  | none =>
    match b.pending with
    | some pending =>
      if pending.node.key = key then
        let node := { pending.node with value }
        some (.updatedPending, { b with pending := some { pending with node } })
      else some (.failed .keyNonExistent, b)
    | none => some (.failed .keyNonExistent, b)

/-- Whether a node was removed. -/
def remove (now : Nat) (key : Key) : Option (Bool × KBucket V) :=
  match b.position key with
  | some pos => do
    let (_, nodes) ← arrayRemove b.nodes pos
    let (_, b) ← applyPending ({ b with nodes }.updateFirstConnectedPosForRemoval pos) now
    return (true, b)
  | none => some (false, b)

end KBucket

/-! ## Runs -/

/-- One call on a bucket. -/
inductive BucketOp (V : Type)
  | insert (node : Node V)
  | applyPending
  | updatePending (status : NodeStatus)
  | updateStatus (key : Key) (state : ConnectionState) (direction : Option ConnectionDirection)
  | updateValue (key : Key) (value : V)
  | remove (key : Key)

inductive BucketAnswer (V : Type)
  | inserted (result : BucketInsertResult)
  | applied (applied : Option (AppliedPending V))
  | pendingUpdated
  | updated (result : UpdateResult)
  | removed (existed : Bool)
  deriving Repr, DecidableEq

section
variable {V : Type} [DecidableEq V]

def KBucket.apply (b : KBucket V) (now : Nat) : BucketOp V → Option (BucketAnswer V × KBucket V)
  | .insert node => (b.insert now node).map fun r => (.inserted r.1, r.2)
  | .applyPending => (b.applyPending now).map fun r => (.applied r.1, r.2)
  | .updatePending status => some (.pendingUpdated, b.updatePending status)
  | .updateStatus key state direction =>
    (b.updateStatus now key state direction).map fun r => (.updated r.1, r.2)
  | .updateValue key value => (b.updateValue key value).map fun r => (.updated r.1, r.2)
  | .remove key => (b.remove now key).map fun r => (.removed r.1, r.2)

/-- Calls one after another, each with the clock it reads. -/
def KBucket.run (b : KBucket V) :
    List (Nat × BucketOp V) → Option (List (BucketAnswer V) × KBucket V)
  | [] => some ([], b)
  | (now, op) :: ops => do
    let (answer, b) ← b.apply now op
    let (answers, b) ← b.run ops
    return (answer :: answers, b)

end

end Discv5
