import Neverust.Discv5.KBucket

/-!
# What a bucket is for

A bucket is two queues, the disconnected and the connected nodes, each from the least to the most
recently touched one, and a slot for one node that waits for a place. `Queues` says what every
operation does to them; nothing here can panic. `Queues.bucket` is the bucket of the source that
stores two queues in one array, with the position at which the second one begins.
-/

namespace Discv5

variable {V : Type}

/-- What a bucket is created with. -/
structure BucketSettings (V : Type) where
  pendingTimeout : Nat
  filter : Option (Filter V)
  maxIncoming : Nat

structure Queues (V : Type) where
  disconnected : List (Node V)
  connected : List (Node V)
  pending : Option (PendingNode V)

namespace Queues

def empty : Queues V := { disconnected := [], connected := [], pending := none }

variable (s : BucketSettings V) (q : Queues V)

/-- The nodes in the order of the bucket. -/
def nodes : List (Node V) := q.disconnected ++ q.connected

def keys : List Key := q.nodes.map Node.key

def isFull : Bool := q.nodes.length = maxNodesPerBucket

/-- The bucket of the source that holds the queues. -/
def bucket : KBucket V :=
  { nodes := q.nodes
    firstConnectedPos := if q.connected = [] then none else some q.disconnected.length
    pending := q.pending
    pendingTimeout := s.pendingTimeout
    filter := s.filter
    maxIncoming := s.maxIncoming }

/-- A node that counts against `max_incoming`. -/
def isIncoming (node : Node V) : Bool := node.status.isConnected && node.status.isIncoming

def passes (value : V) : Bool := s.filter.all fun filter => filter value (q.nodes.map Node.value)

/-- Whether one more node would be too many incoming ones. -/
def tooMany (node : Node V) : Bool := isIncoming node && s.maxIncoming ≤ q.nodes.countP isIncoming

/-- A node comes to the end of its queue. -/
def settle (node : Node V) : Queues V :=
  match node.status.state with
  | .connected => { q with connected := q.connected ++ [node] }
  | .disconnected => { q with disconnected := q.disconnected ++ [node] }

def without (key : Key) : Queues V :=
  { q with
    disconnected := q.disconnected.filter fun n => n.key ≠ key
    connected := q.connected.filter fun n => n.key ≠ key }

/-- The waiting node gives up its slot if it has this key. -/
def release (key : Key) : Queues V :=
  { q with pending := q.pending.filter fun p => p.node.key ≠ key }

def find (key : Key) : Option (Node V) := q.nodes.find? fun n => n.key = key

/-- The least recently touched node, when it is disconnected. -/
def oldest : Option (Node V) := q.disconnected.head?

def insert (now : Nat) (node : Node V) : BucketInsertResult × Queues V :=
  if node.key ∈ q.keys then (.nodeExists, q)
  else if !q.passes s node.value then (.failedFilter, q)
  else if q.tooMany s node then (.tooManyIncoming, q)
  else if q.isFull then
    match q.oldest with
    | some head =>
      if node.status.state = .connected ∧ q.pending = none then
        (.pending head.key, { q with pending := some { node, replace := now + s.pendingTimeout } })
      else (.full, q)
    | none => (.full, q)
  else (.inserted, (q.release node.key).settle node)

/-- The waiting node takes its place, that of the oldest node when there is no other. -/
def takePlace (node : Node V) : Option (AppliedPending V) × Queues V :=
  if !q.passes s node.value || q.tooMany s node then (none, q)
  else if q.isFull then
    match q.disconnected with
    | [] => (none, q)
    | head :: rest =>
      (some { inserted := node.key, evicted := some head },
        { q with disconnected := rest }.settle node)
  else (some { inserted := node.key, evicted := none }, q.settle node)

def applyPending (now : Nat) : Option (AppliedPending V) × Queues V :=
  match q.pending with
  | some p => if p.replace ≤ now then { q with pending := none }.takePlace s p.node else (none, q)
  | none => (none, q)

def updatePending (status : NodeStatus) : Queues V :=
  { q with pending := q.pending.map fun p => { p with node := { p.node with status } } }

/-- An update of the node that waits, if it has this key. -/
def updateWaiting (key : Key) (f : Node V → Node V) : UpdateResult × Queues V :=
  match q.pending with
  | some p =>
    if p.node.key = key then
      (.updatedPending, { q with pending := some { p with node := f p.node } })
    else (.failed .keyNonExistent, q)
  | none => (.failed .keyNonExistent, q)

/-- The queues without the node whose status changes; the waiting node gives up its slot if the
node in the place of the oldest one connects. -/
def vacate (key : Key) (state : ConnectionState) : Queues V :=
  let rescued := q.nodes.head?.map Node.key = some key ∧ state = .connected
  { q.without key with pending := if rescued then none else q.pending }

/-- A node comes back with another status. -/
def reinsert (old : NodeStatus) (node : Node V) : UpdateResult × Queues V :=
  if !q.passes s node.value then (.failed .bucketFilter, q)
  else if q.tooMany s node then (.failed .tooManyIncoming, q)
  else
    let result :=
      if old = node.status then .notModified
      else if !old.isConnected && node.status.isConnected then .updatedAndPromoted
      else .updated
    (result, q.settle node)

def updateStatus (key : Key) (state : ConnectionState) (direction : Option ConnectionDirection) :
    UpdateResult × Queues V :=
  let update := fun node : Node V => { node with status := node.status.update state direction }
  match q.find key with
  | some old => (q.vacate key state).reinsert s old.status (update old)
  | none => q.updateWaiting key update

/-- The node with this key gets a value, in its place. -/
def setValue (key : Key) (value : V) : Queues V :=
  let set := fun n : Node V => if n.key = key then { n with value } else n
  { q with disconnected := q.disconnected.map set, connected := q.connected.map set }

def updateValue [DecidableEq V] (key : Key) (value : V) : UpdateResult × Queues V :=
  match q.find key with
  | some old =>
    if old.value = value then (.notModified, q)
    else if !(q.without key).passes s value then (.failed .bucketFilter, q.without key)
    else (.updated, q.setValue key value)
  | none => q.updateWaiting key fun node => { node with value }

def remove (now : Nat) (key : Key) : Bool × Queues V :=
  if key ∈ q.keys then (true, ((q.without key).applyPending s now).2) else (false, q)

def act [DecidableEq V] (now : Nat) : BucketOp V → BucketAnswer V × Queues V
  | .insert node => let (r, q) := q.insert s now node; (.inserted r, q)
  | .applyPending => let (r, q) := q.applyPending s now; (.applied r, q)
  | .updatePending status => (.pendingUpdated, q.updatePending status)
  | .updateStatus key state direction =>
    let (r, q) := q.updateStatus s key state direction; (.updated r, q)
  | .updateValue key value => let (r, q) := q.updateValue s key value; (.updated r, q)
  | .remove key => let (r, q) := q.remove s now key; (.removed r, q)

def run [DecidableEq V] (q : Queues V) :
    List (Nat × BucketOp V) → List (BucketAnswer V) × Queues V
  | [] => ([], q)
  | (now, op) :: ops =>
    let (answer, q) := q.act s now op
    let (answers, q) := q.run ops
    (answer :: answers, q)

/-- What always holds of the queues. -/
structure Valid : Prop where
  disconnected : ∀ n ∈ q.disconnected, n.status.state = .disconnected
  connected : ∀ n ∈ q.connected, n.status.state = .connected
  room : q.nodes.length ≤ maxNodesPerBucket
  nodup : q.keys.Nodup
  waits : ∀ p, q.pending = some p → p.node.key ∉ q.keys
  incoming : q.nodes.countP isIncoming ≤ s.maxIncoming

/-- The key whose status a call updates. -/
def restatus : BucketOp V → Option Key
  | .updateStatus key _ _ => some key
  | _ => none

/-- A run with the call in which every node came in or had its status updated for the last time. -/
structure Clocked (V : Type) where
  queues : Queues V
  calls : Nat
  touched : Key → Nat

namespace Clocked

def start : Clocked V := { queues := empty, calls := 0, touched := fun _ => 0 }

def next [DecidableEq V] (s : BucketSettings V) (c : Clocked V) (call : Nat × BucketOp V) :
    Clocked V :=
  { queues := (c.queues.act s call.1 call.2).2
    calls := c.calls + 1
    touched := fun k =>
      if k ∉ c.queues.keys ∨ restatus call.2 = some k then c.calls else c.touched k }

end Clocked

end Queues

end Discv5
