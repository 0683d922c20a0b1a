import Mathlib.Algebra.Group.Nat.Defs
import Neverust.Discv5.KBuckets
import Neverust.Lib.SortedMap

/-!
# Queries for the closest peers (`query_pool/peers/closest.rs`, `predicate.rs`, `query_pool.rs`)

A query keeps the peers it knows by their distance to its target, contacts the closest one it has
not contacted yet, and takes in the peers that an answer names. `FindNodeQuery` and `PredicateQuery`
are the same machine but for `on_failure`: a peer of a `FindNodeQuery` has no `predicate_match`, so
that each counts. The node id of a result is `nodeId`. `none` is a panic: a `debug_assert`, or a
counter below 0. The end of a peer's time is a sum that an `Instant` has room for: a `peer_timeout`
with which `now + peer_timeout` panics, such as `Duration::MAX`, is left out.
-/

namespace Discv5

/-- `QueryState`. -/
inductive QueryState
  | waiting (peer : Option Key)
  | waitingAtCapacity
  | finished
  deriving Repr, DecidableEq

inductive QueryPeerState
  | notContacted
  | waiting (timeout : Nat)
  | unresponsive
  | failed
  | succeeded
  deriving Repr, DecidableEq

structure QueryPeer where
  key : Key
  peersReturned : Nat
  predicateMatch : Bool
  state : QueryPeerState
  deriving Repr, DecidableEq

/-- `QueryPeer::new`, of a peer that has not been contacted. -/
def QueryPeer.new (key : Key) (predicateMatch : Bool) : QueryPeer :=
  { key, peersReturned := 0, predicateMatch, state := .notContacted }

inductive QueryProgress
  | iterating (noProgress : Nat)
  | stalled
  | finished
  deriving Repr, DecidableEq

/-- `FindNodeQueryConfig`, `PredicateQueryConfig`. -/
structure QueryConfig where
  parallelism : Nat
  numResults : Nat
  peerTimeout : Nat
  deriving Repr, DecidableEq

/-- `BTreeMap<Distance, QueryPeer>`. -/
abbrev ClosestPeers := SortedMap Key QueryPeer

/-! ## The query -/

/-- `FindNodeQuery`, and `PredicateQuery` without its predicate. -/
structure PeerQuery where
  targetKey : Key
  progress : QueryProgress
  closestPeers : ClosestPeers
  numWaiting : Nat
  config : QueryConfig
  deriving Repr, DecidableEq

/-- `self.num_waiting -= 1`, after the assertion that it is not 0. -/
def decrement (n : Nat) : Option Nat := if 0 < n then some (n - 1) else none

/-- The progress after an answer that made progress, or did not. -/
def QueryProgress.after (parallelism : Nat) (progress : Bool) : QueryProgress → QueryProgress
  | .iterating noProgress =>
    let noProgress := if progress then 0 else noProgress + 1
    if parallelism ≤ noProgress then .stalled else .iterating noProgress
  | .stalled => if progress then .iterating 0 else .stalled
  | .finished => .finished

namespace PeerQuery

/-- `with_config`, of keys with their `predicate_match`. -/
def withConfig (config : QueryConfig) (targetKey : Key) (known : List (Key × Bool)) : PeerQuery :=
  { targetKey
    progress := .iterating 0
    closestPeers := SortedMap.collect ((known.map fun k =>
      (distance k.1 targetKey, QueryPeer.new k.1 k.2)).take config.numResults)
    numWaiting := 0
    config }

def atCapacity (q : PeerQuery) : Bool :=
  match q.progress with
  | .stalled => q.config.numResults ≤ q.numWaiting
  | .iterating _ => q.config.parallelism ≤ q.numWaiting
  | .finished => true

variable (q : PeerQuery)

/-- One peer in the loop of `on_success`: `progress` is overwritten. -/
def incorporateOne (numClosest : Nat) (acc : ClosestPeers × Bool) (closer : Key × Bool) :
    ClosestPeers × Bool :=
  let d := distance q.targetKey closer.1
  let peers := SortedMap.orInsert d (.new closer.1 closer.2) acc.1
  (peers, peers.head?.map Prod.fst = some d ∨ numClosest < q.config.numResults)

/-- What `on_success` does with the peers of an answer. -/
def incorporate (closer : List (Key × Bool)) : PeerQuery :=
  let (peers, progress) :=
    closer.foldl (q.incorporateOne q.closestPeers.length) (q.closestPeers, false)
  { q with
    closestPeers := peers
    progress := q.progress.after q.config.parallelism progress }

/-- The peer at `d` has answered. -/
def succeed (d : Key) (peer : QueryPeer) (closer : List (Key × Bool)) : PeerQuery :=
  { q with
    closestPeers := q.closestPeers.set d { peer with
      peersReturned := peer.peersReturned + closer.length, state := .succeeded } }

/-- `on_success`, of the peers an answer names with whether they match the predicate. -/
def onSuccess (nodeId : Key) (closer : List (Key × Bool)) : Option PeerQuery :=
  if q.progress = .finished then some q else
  let d := distance nodeId q.targetKey
  match q.closestPeers.find d with
  | none => some q
  | some peer =>
    match peer.state with
    | .waiting _ => do
      let numWaiting ← decrement q.numWaiting
      some (({ q with numWaiting }.succeed d peer closer).incorporate closer)
    | .unresponsive => some ((q.succeed d peer closer).incorporate closer)
    | .notContacted | .failed | .succeeded => some q

/-- `FindNodeQuery::on_failure`. -/
def findNodeOnFailure (nodeId : Key) : Option PeerQuery :=
  if q.progress = .finished then some q else
  let d := distance nodeId q.targetKey
  match q.closestPeers.find d with
  | none => some q
  | some peer =>
    let failed := q.closestPeers.set d { peer with state := .failed }
    match peer.state with
    | .waiting _ => do
      let numWaiting ← decrement q.numWaiting
      some { q with numWaiting, closestPeers := failed }
    | .unresponsive => some { q with closestPeers := failed }
    | .notContacted | .failed | .succeeded => some q

/-- `PredicateQuery::on_failure`: a peer that was given up on stays `Unresponsive`. -/
def predicateOnFailure (nodeId : Key) : Option PeerQuery :=
  if q.progress = .finished then some q else
  let d := distance nodeId q.targetKey
  match q.closestPeers.find d with
  | none => some q
  | some peer =>
    match peer.state with
    | .waiting _ => do
      let numWaiting ← decrement q.numWaiting
      some { q with
        numWaiting, closestPeers := q.closestPeers.set d { peer with state := .failed } }
    | .notContacted | .unresponsive | .failed | .succeeded => some q

/-- What the loop of `next` returns, if it returns, with `num_waiting` and the peers after it.
`counter` is `result_counter`. -/
def scan (config : QueryConfig) (now : Nat) (atCapacity : Bool) :
    Option Nat → Nat → ClosestPeers → Option (Option QueryState × Nat × ClosestPeers)
  | _, numWaiting, [] => some (none, numWaiting, [])
  | counter, numWaiting, (d, peer) :: l =>
    match peer.state with
    | .notContacted =>
      if atCapacity then some (some .waitingAtCapacity, numWaiting, (d, peer) :: l)
      else
        let asked := { peer with state := .waiting (now + config.peerTimeout) }
        some (some (.waiting (some peer.key)), numWaiting + 1, (d, asked) :: l)
    | .waiting timeout =>
      if timeout ≤ now then do
        let numWaiting ← decrement numWaiting
        let (r, numWaiting, l) ← scan config now atCapacity counter numWaiting l
        some (r, numWaiting, (d, { peer with state := .unresponsive }) :: l)
      else if atCapacity then some (some .waitingAtCapacity, numWaiting, (d, peer) :: l)
      else do
        let counter := if peer.predicateMatch then none else counter
        let (r, numWaiting, l) ← scan config now atCapacity counter numWaiting l
        some (r, numWaiting, (d, peer) :: l)
    | .succeeded =>
      let counter := if peer.predicateMatch then counter.map (· + 1) else counter
      if peer.predicateMatch ∧ counter.any (config.numResults ≤ ·) then
        some (some .finished, numWaiting, (d, peer) :: l)
      else do
        let (r, numWaiting, l) ← scan config now atCapacity counter numWaiting l
        some (r, numWaiting, (d, peer) :: l)
    | .failed | .unresponsive => do
      let (r, numWaiting, l) ← scan config now atCapacity counter numWaiting l
      some (r, numWaiting, (d, peer) :: l)

def next (now : Nat) : Option (QueryState × PeerQuery) :=
  if q.progress = .finished then some (.finished, q) else do
  let (r, numWaiting, closestPeers) ←
    scan q.config now q.atCapacity (some 0) q.numWaiting q.closestPeers
  let q := { q with numWaiting, closestPeers }
  match r with
  | some .finished => some (.finished, { q with progress := .finished })
  | some r => some (r, q)
  | none =>
    if 0 < numWaiting then some (.waiting none, q)
    else some (.finished, { q with progress := .finished })

/-- `into_result`. -/
def intoResult : List Key :=
  ((q.closestPeers.filter fun e => e.2.state = .succeeded ∧ e.2.predicateMatch).map
    (·.2.key)).take q.config.numResults

end PeerQuery

/-- `QueryPeerIter`. -/
inductive QueryPeerIter (R : Type)
  | findNode (q : PeerQuery)
  | predicate (q : PeerQuery) (predicate : R → Bool)

/-- A call of an iterator. -/
inductive QueryOp (R : Type)
  | next (now : Nat)
  | onSuccess (peer : Key) (newPeers : List R)
  | onFailure (peer : Key)

namespace QueryPeerIter

variable {R : Type} (nodeId : R → Key)

def query : QueryPeerIter R → PeerQuery
  | .findNode q | .predicate q _ => q

/-- Whether a result counts. -/
def counts : QueryPeerIter R → R → Bool
  | .findNode _, _ => true
  | .predicate _ p, r => p r

def withQuery (q : PeerQuery) : QueryPeerIter R → QueryPeerIter R
  | .findNode _ => .findNode q
  | .predicate _ p => .predicate q p

/-- A new `PredicateQuery`, or a new `FindNodeQuery` if there is no predicate. -/
def withConfig (p : Option (R → Bool)) (config : QueryConfig) (targetKey : Key)
    (known : List (Key × Bool)) : QueryPeerIter R :=
  match p with
  | none => .findNode (.withConfig config targetKey (known.map fun k => (k.1, true)))
  | some p => .predicate (.withConfig config targetKey known) p

variable (it : QueryPeerIter R)

def onSuccess (peer : Key) (newPeers : List R) : Option (QueryPeerIter R) :=
  (it.query.onSuccess peer (newPeers.map fun r => (nodeId r, it.counts r))).map (it.withQuery ·)

def onFailure (peer : Key) : QueryPeerIter R → Option (QueryPeerIter R)
  | .findNode q => (q.findNodeOnFailure peer).map .findNode
  | .predicate q p => (q.predicateOnFailure peer).map (.predicate · p)

def next (now : Nat) : Option (QueryState × QueryPeerIter R) :=
  (it.query.next now).map fun (r, q) => (r, it.withQuery q)

def intoResult : List Key := it.query.intoResult

def act : QueryOp R → Option (Option QueryState × QueryPeerIter R)
  | .next now => (it.next now).map fun (r, it) => (some r, it)
  | .onSuccess peer newPeers => (it.onSuccess nodeId peer newPeers).map fun it => (none, it)
  | .onFailure peer => (it.onFailure peer).map fun it => (none, it)

/-- A run of calls, with what the calls of `next` return. -/
def run (it : QueryPeerIter R) : List (QueryOp R) → Option (List QueryState × QueryPeerIter R)
  | [] => some ([], it)
  | op :: ops => do
    let (r, it) ← it.act nodeId op
    let (rs, it) ← it.run ops
    some (r.toList ++ rs, it)

end QueryPeerIter

/-! ## The pool -/

structure Query (T R : Type) where
  id : Nat
  peerIter : QueryPeerIter R
  started : Option Nat
  target : T

/-- `QueryPoolState`: a query that waits is named by its id. -/
inductive QueryPoolState (T R : Type)
  | idle
  | waiting (request : Option (Nat × Key))
  | finished (query : Query T R)
  | timeout (query : Query T R)

structure QueryPool (T R : Type) where
  nextId : Nat
  queryTimeout : Nat
  queries : List (Query T R)

/-- A call of the pool, or of a query in it. `rank` is the order in which the hash map gives its
entries to a `poll`. -/
inductive PoolOp (T R : Type)
  | addFindnode (config : QueryConfig) (target : T) (peers : List Key)
  | addPredicate (config : QueryConfig) (target : T) (peers : List (Key × Bool)) (p : R → Bool)
  | poll (now : Nat) (rank : Nat → Nat)
  | onSuccess (id : Nat) (peer : Key) (newPeers : List R)
  | onFailure (id : Nat) (peer : Key)

namespace QueryPool

variable {T R : Type} (targetKey : T → Key) (nodeId : R → Key)

def new (queryTimeout : Nat) : QueryPool T R := { nextId := 0, queryTimeout, queries := [] }

variable (pool : QueryPool T R)

/-- `add`: the id after the last one is 0 again. -/
def add (peerIter : QueryPeerIter R) (target : T) : QueryPool T R :=
  let id := pool.nextId
  { pool with
    nextId := (pool.nextId + 1) % 2 ^ 64
    queries := { id, peerIter, started := none, target } ::
      pool.queries.filter fun query => query.id ≠ id }

def addFindnodeQuery (config : QueryConfig) (target : T) (peers : List Key) : QueryPool T R :=
  pool.add (.withConfig none config (targetKey target) (peers.map fun key => (key, true))) target

def addPredicateQuery (config : QueryConfig) (target : T) (peers : List (Key × Bool))
    (p : R → Bool) : QueryPool T R :=
  pool.add (.withConfig (some p) config (targetKey target) peers) target

/-- `get_mut`, and a change of the query. -/
def modify (id : Nat) (f : QueryPeerIter R → Option (QueryPeerIter R)) :
    List (Query T R) → Option (List (Query T R))
  | [] => some []
  | query :: queries =>
    if query.id = id then (f query.peerIter).map fun peerIter => { query with peerIter } :: queries
    else (modify id f queries).map (query :: ·)

/-- Where the loop of `poll` stops. -/
inductive PollStop
  | finished (id : Nat)
  | waiting (id : Nat) (peer : Key)
  | timeout (id : Nat)

def pollLoop (now queryTimeout : Nat) :
    List (Query T R) → Option (Option PollStop × List (Query T R))
  | [] => some (none, [])
  | query :: queries => do
    let started := query.started.getD now
    let (r, peerIter) ← query.peerIter.next now
    let query := { query with started := some started, peerIter }
    match r with
    | .finished => some (some (.finished query.id), query :: queries)
    | .waiting (some peer) => some (some (.waiting query.id peer), query :: queries)
    | .waiting none | .waitingAtCapacity =>
      if queryTimeout ≤ now - started then some (some (.timeout query.id), query :: queries)
      else do
        let (stop, queries) ← pollLoop now queryTimeout queries
        some (stop, query :: queries)

/-- `queries.remove(&query_id).expect("s.a.")` -/
def remove (id : Nat) : Option (Query T R × QueryPool T R) :=
  (pool.queries.find? fun query => query.id = id).map fun query =>
    (query, { pool with queries := pool.queries.filter fun query => query.id ≠ id })

def poll (now : Nat) (rank : Nat → Nat) : Option (QueryPoolState T R × QueryPool T R) := do
  let order := pool.queries.mergeSort fun a b => rank a.id ≤ rank b.id
  let (stop, queries) ← pollLoop now pool.queryTimeout order
  let pool := { pool with queries }
  match stop with
  | some (.waiting id peer) => some (.waiting (some (id, peer)), pool)
  | some (.finished id) => (pool.remove id).map fun (query, pool) => (.finished query, pool)
  | some (.timeout id) => (pool.remove id).map fun (query, pool) => (.timeout query, pool)
  | none => some (if pool.queries.isEmpty then .idle else .waiting none, pool)

def act : PoolOp T R → Option (Option (QueryPoolState T R) × QueryPool T R)
  | .addFindnode config target peers =>
    some (none, pool.addFindnodeQuery targetKey config target peers)
  | .addPredicate config target peers p =>
    some (none, pool.addPredicateQuery targetKey config target peers p)
  | .poll now rank => (pool.poll now rank).map fun (r, pool) => (some r, pool)
  | .onSuccess id peer newPeers =>
    (modify id (·.onSuccess nodeId peer newPeers) pool.queries).map fun queries =>
      (none, { pool with queries })
  | .onFailure id peer =>
    (modify id (·.onFailure peer) pool.queries).map fun queries => (none, { pool with queries })

/-- A run of calls, with what the calls of `poll` return. -/
def run (pool : QueryPool T R) :
    List (PoolOp T R) → Option (List (QueryPoolState T R) × QueryPool T R)
  | [] => some ([], pool)
  | op :: ops => do
    let (r, pool) ← pool.act targetKey nodeId op
    let (rs, pool) ← pool.run ops
    some (r.toList ++ rs, pool)

end QueryPool

end Discv5
