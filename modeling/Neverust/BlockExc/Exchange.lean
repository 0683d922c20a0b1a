import Neverust.BlockExc

/-!
# The block exchange of a node

`BlockExcBehaviour` takes the requests of the clients from a channel and asks the handlers of all
connections for the block. A handler opens a stream for it, and the task of the stream stores the
block. A request is answered when a `BlockReceived` event reaches the behaviour.

The parts run concurrently: `Exchange.step` is one step of one of them. `requests` and `stored` are
what has happened: the requests that were sent and the CIDs for which an outbound stream has
verified and stored a block.
-/

namespace BlockExc

open Storage Request

/-! ## The behaviour -/

/-- `BlockRequest`; `responseTx` names the channel for the answer. -/
structure BlockRequest where
  cid : Cid
  responseTx : Nat
  deriving Repr, DecidableEq

/-- `BlockExcBehaviour`. The events for the handlers are all `RequestBlock`. -/
structure BlockExcBehaviour (Peer : Type) where
  requestRx : List BlockRequest
  pendingRequests : Cid → Option BlockRequest
  connectedPeers : List Peer
  pendingEvents : List (Peer × Cid)

variable {Peer : Type} [DecidableEq Peer]

namespace BlockExcBehaviour

def new : BlockExcBehaviour Peer where
  requestRx := []
  pendingRequests _ := none
  connectedPeers := []
  pendingEvents := []

/-- A request is taken from the channel; there is one entry for each CID. -/
def accept (order : List Peer) (request : BlockRequest) (b : BlockExcBehaviour Peer) :
    BlockExcBehaviour Peer :=
  { b with
    pendingRequests := fun cid => if cid = request.cid then some request else b.pendingRequests cid
    pendingEvents := b.pendingEvents ++ order.map fun peer => (peer, request.cid) }

/-- The loop of `poll` over the requests in the channel. -/
def pollRequests (order : List Peer) :
    List BlockRequest → BlockExcBehaviour Peer → Option (Peer × Cid) × BlockExcBehaviour Peer
  | [], b => (none, { b with requestRx := [] })
  | request :: requests, b =>
    let b := b.accept order request
    match b.pendingEvents with
    | event :: events => (some event, { b with requestRx := requests, pendingEvents := events })
    | [] => pollRequests order requests b

/-- `poll`, with the order in which it goes through the connected peers; `none` is `Pending`. -/
def poll (order : List Peer) (b : BlockExcBehaviour Peer) :
    Option (Peer × Cid) × BlockExcBehaviour Peer :=
  match b.pendingEvents with
  | event :: events => (some event, { b with pendingEvents := events })
  | [] => pollRequests order b.requestRx b

/-- `on_connection_handler_event`: the request that is answered, with the block for it. -/
def onConnectionHandlerEvent (event : BlockExcToBehaviour) (b : BlockExcBehaviour Peer) :
    Option (BlockRequest × Block) × BlockExcBehaviour Peer :=
  match event with
  | .blockReceived cid data =>
    match b.pendingRequests cid with
    | some request =>
      (some (request, { cid, data }),
        { b with pendingRequests := fun c => if c = cid then none else b.pendingRequests c })
    | none => (none, b)
  | .blockPresence _ _ => (none, b)

/-- `on_swarm_event` for a new connection. -/
def onConnectionEstablished (peer : Peer) (b : BlockExcBehaviour Peer) : BlockExcBehaviour Peer :=
  if peer ∈ b.connectedPeers then b else { b with connectedPeers := b.connectedPeers ++ [peer] }

/-- `on_swarm_event` for a closed connection. -/
def onConnectionClosed (peer : Peer) (remaining : Nat) (b : BlockExcBehaviour Peer) :
    BlockExcBehaviour Peer :=
  if remaining = 0 then { b with connectedPeers := b.connectedPeers.erase peer } else b

end BlockExcBehaviour

/-! ## The whole exchange -/

structure Exchange (Peer : Type) (B : Backend) where
  behaviour : BlockExcBehaviour Peer
  connections : List (Peer × BlockExcHandler)
  /-- The events on their way to a handler. -/
  notified : List (Peer × Cid)
  /-- The outbound streams that are being negotiated, by the CID they are for. -/
  opening : List Cid
  streams : List Stream
  /-- The events on their way to the behaviour. -/
  reported : List BlockExcToBehaviour
  /-- The tasks that answer a request. -/
  answering : List (BlockRequest × Block)
  /-- The tasks that store a block for the behaviour. -/
  storing : List Stream
  store : B.State
  /-- The blocks sent on the channels of the requests. -/
  sent : List (Nat × Block)
  requests : List BlockRequest
  stored : List Cid

inductive ExchangeEvent (Peer : Type)
  | request (cid : Cid)
  | connect (peer : Peer)
  | close (i : Nat)
  | poll (order : List Peer)
  | deliver (k i : Nat)
  | drop (k : Nat)
  | pollHandler (i : Nat)
  | negotiated (k : Nat) (sent : Bool) (frames : List (Option Message))
  | upgradeError (k : Nat)
  | stream (k : Nat)
  | report
  | answer (k : Nat)
  | storeTask (k : Nat)

namespace Exchange

variable {B : Backend}

def start (store : B.State) : Exchange Peer B where
  behaviour := .new
  connections := []
  notified := []
  opening := []
  streams := []
  reported := []
  answering := []
  storing := []
  store := store
  sent := []
  requests := []
  stored := []

/-- The blocks that a call of the store has stored. -/
def storedBy : (r : StoreReq) → StoreAns r → List Cid
  | .putMany blocks, .ok () => blocks.map Block.cid
  | _, _ => []

/-- The next call of a task: what goes on, the store after it and the CIDs that were stored. -/
def taskStep (task : Stream) (store : B.State) : Option (Stream × B.State × List Cid) :=
  match task with
  | .done _ => none
  | .ask r k =>
    let (a, store) := B.answer r store
    some (k a, store, storedBy r a)

/-- What the poll of a handler leads to. -/
def handlePoll (s : Exchange Peer B) : Option HandlerEvent → Exchange Peer B
  | none => s
  | some (.outboundSubstreamRequest cid) => { s with opening := s.opening ++ [cid] }
  | some (.notifyBehaviour event) => { s with reported := s.reported ++ [event] }

section
variable (cr : Crates)

/-- A step; `none` if it cannot be made. -/
def step (s : Exchange Peer B) : ExchangeEvent Peer → Option (Exchange Peer B)
  | .request cid =>
    let request := { cid, responseTx := s.requests.length }
    some { s with
      requests := s.requests ++ [request]
      behaviour := { s.behaviour with requestRx := s.behaviour.requestRx ++ [request] } }
  | .connect peer =>
    some { s with
      connections := s.connections ++ [(peer, .new)]
      behaviour := s.behaviour.onConnectionEstablished peer }
  | .close i => do
    let (peer, _) ← s.connections[i]?
    let connections := s.connections.eraseIdx i
    let remaining := connections.countP fun c => c.1 = peer
    return { s with connections, behaviour := s.behaviour.onConnectionClosed peer remaining }
  | .poll order => do
    guard (order.isPerm s.behaviour.connectedPeers)
    let (event, behaviour) := s.behaviour.poll order
    return { s with behaviour, notified := s.notified ++ event.toList }
  | .deliver k i => do
    let (peer, cid) ← s.notified[k]?
    let (peer', h) ← s.connections[i]?
    guard (peer = peer')
    return { s with
      notified := s.notified.eraseIdx k
      connections := s.connections.set i (peer', h.onBehaviourEvent cid) }
  | .drop k => do
    let (peer, _) ← s.notified[k]?
    guard (peer ∉ s.connections.map Prod.fst)
    return { s with notified := s.notified.eraseIdx k }
  | .pollHandler i => do
    let (peer, h) ← s.connections[i]?
    return handlePoll { s with connections := s.connections.set i (peer, h.poll.2) } h.poll.1
  | .negotiated k sent frames => do
    let cid ← s.opening[k]?
    return { s with
      opening := s.opening.eraseIdx k
      streams := s.streams ++ [outboundStream cr cid sent frames] }
  | .upgradeError k => do
    guard (k < s.opening.length)
    return { s with opening := s.opening.eraseIdx k }
  | .stream k => do
    let task ← s.streams[k]?
    let (task, store, cids) ← taskStep task s.store
    return { s with streams := s.streams.set k task, store, stored := s.stored ++ cids }
  | .report =>
    match s.reported with
    | [] => none
    | event :: reported =>
      let (answer, behaviour) := s.behaviour.onConnectionHandlerEvent event
      some { s with
        reported, behaviour
        answering := s.answering ++ answer.toList
        storing := s.storing ++ [BlockExc.onConnectionHandlerEvent event] }
  | .answer k => do
    let (request, block) ← s.answering[k]?
    return { s with
      answering := s.answering.eraseIdx k
      sent := s.sent ++ [(request.responseTx, block)] }
  | .storeTask k => do
    let task ← s.storing[k]?
    let (task, store, _) ← taskStep task s.store
    return { s with storing := s.storing.set k task, store }

/-- The state after a run, `none` if a step cannot be made. -/
def run (s : Exchange Peer B) : List (ExchangeEvent Peer) → Option (Exchange Peer B)
  | [] => some s
  | e :: es => do
    let s ← s.step cr e
    s.run es

end

/-- Every event that was queued has been processed. -/
structure Quiet (s : Exchange Peer B) : Prop where
  requestRx : s.behaviour.requestRx = []
  pendingEvents : s.behaviour.pendingEvents = []
  notified : s.notified = []
  handlers : ∀ c ∈ s.connections, c.2.poll.1 = none
  reported : s.reported = []
  answering : s.answering = []

/-- The requests for a CID whose block was stored have been answered. -/
def Answered (s : Exchange Peer B) : Prop :=
  ∀ r ∈ s.requests, r.cid ∈ s.stored → ∃ block, block.cid = r.cid ∧ (r.responseTx, block) ∈ s.sent

end Exchange

end BlockExc
