import Neverust.Api.Directory
import Neverust.Api.Peers
import Neverust.Api.Schedule
import Neverust.BlockExc
import Neverust.Botg
import Neverust.Storage.Redb

/-!
# A node

The parts of a node that write to its block store, with the default settings: the handlers of the
HTTP API and their tasks, the streams of the block exchange, and the receive loop of BoTG. They run
concurrently; in one step one of them makes one request, or something arrives from outside.

`Node.states` has the states of a run and `Node.taken` its steps, each with the state before it.
-/

namespace Node

open Rust Storage Request Api BlockExc Botg

/-! ## Requests from outside -/

/-- The requests to the HTTP API that write to the store or remove content from it. -/
inductive ApiCall
  | upload (cfg : UploadConfig) (body : List (Except String Bytes))
  | uploadRawBlock (body : List (Except String Bytes))
  | storeBlock (body : Bytes)
  | createDirectory (req : CreateDirectoryRequest)
  | download (cid : Cid) (cidStr : String) (peers : List PeerAnswer)
  | pin (cidStr : String) (peers : List PeerAnswer)
  | delete (cid : Cid)
  | unpin (cid : Cid)

/-- What a handler does; the answer that is sent is left out. -/
def ApiCall.handler (cr : Crates) (px : Prost) : ApiCall → Handler Unit
  | .upload cfg body => do let _ ← archivistUpload cr cfg px body
  | .uploadRawBlock body => do let _ ← archivistUploadRawBlock cr body
  | .storeBlock body => do let _ ← Api.storeBlock cr body
  | .createDirectory req => do let _ ← archivistCreateDirectory cr px req
  | .download cid cidStr peers => do let _ ← archivistDownload cr px cid cidStr peers
  | .pin cidStr peers => do let _ ← ensurePinLocally cr cidStr peers
  | .delete cid => archivistDelete cr px cid
  | .unpin cid => deleteQuietly cid

/-! ## States -/

/-- A handler of the API with the tasks it has not waited for. -/
structure Running where
  handler : Handler Unit
  tasks : List Flight

structure State where
  table : Std.ExtTreeMap String Bytes
  handlers : List Running
  /-- The connections of the block exchange. -/
  connections : List BlockExcHandler
  /-- The outbound streams that are being negotiated, by the CID they are for. -/
  opening : List Cid
  streams : List Stream
  peerAddrs : List SocketAddr
  /-- The rest of the round of the receive loop. -/
  botg : BotgProg Unit

/-- A node that opens its store. -/
def start (table : Std.ExtTreeMap String Bytes) : State where
  table := table
  handlers := []
  connections := []
  opening := []
  streams := []
  peerAddrs := []
  botg := pure ()

/-- A step of the node: something arrives, or one of its parts goes on. `fails` tells if the
database refuses the transaction. -/
inductive Event
  | call (c : ApiCall)
  | handler (i : Nat) (fails : Bool)
  | join (i j : Nat)
  | task (i j : Nat) (fails : Bool)
  | connect
  | requestBlock (i : Nat) (cid : Cid)
  | poll (i : Nat)
  | negotiated (k : Nat) (sent : Bool) (frames : List (Option Message))
  | stream (k : Nat) (fails : Bool)
  | datagram (addr : SocketAddr) (msg : Except String BoTgMessage)
  | botg (fails : Bool) (sent : Except BoTgError Unit)

/-! ## Steps -/

/-- A call of the block store. -/
def storeStep (cr : Crates) (fails : Bool) (r : StoreReq) (table : Std.ExtTreeMap String Bytes) :
    StoreAns r × Std.ExtTreeMap String Bytes :=
  let failures := if fails then [true] else []
  let (a, s) := (RedbStore.backend cr false).answer r ({ table, failures } : RedbStore)
  (a, RedbStore.table s)

section
variable (cr : Crates) (px : Prost) (p : BoTgProtocol)

/-- The next request of a handler that does not wait for a task. -/
def handlerStep (fails : Bool) (h : Running) (table : Std.ExtTreeMap String Bytes) :
    Option (Running × Std.ExtTreeMap String Bytes) :=
  match h.handler with
  | .done _ => none
  | .ask (.store r) k =>
    let (a, table) := storeStep cr fails r table
    some ({ h with handler := k a }, table)
  | .ask (.spawn startIdx expectedLen task) k =>
    some ({ handler := k (), tasks := h.tasks ++ [{ startIdx, expectedLen, task }] }, table)
  | .ask .next k =>
    if h.tasks = [] then some ({ h with handler := k none }, table) else none

/-- The wait for a task ends with the `j`-th one. -/
def joinStep (j : Nat) (h : Running) : Option Running :=
  match h.handler, h.tasks[j]? with
  | .ask .next k, some f =>
    match f.task with
    | .done r =>
      some { handler := k (some (f.startIdx, f.expectedLen, r)), tasks := h.tasks.eraseIdx j }
    | .ask _ _ => none
  | _, _ => none

/-- The next request of the `j`-th task. -/
def taskStep (fails : Bool) (j : Nat) (h : Running) (table : Std.ExtTreeMap String Bytes) :
    Option (Running × Std.ExtTreeMap String Bytes) :=
  match h.tasks[j]? with
  | none => none
  | some f =>
    match f.task with
    | .done _ => none
    | .ask r k =>
      let (a, table) := storeStep cr fails r table
      some ({ h with tasks := h.tasks.set j { f with task := k a } }, table)

/-- The next request of a stream. -/
def streamStep (fails : Bool) (s : Stream) (table : Std.ExtTreeMap String Bytes) :
    Option (Stream × Std.ExtTreeMap String Bytes) :=
  match s with
  | .done _ => none
  | .ask r k =>
    let (a, table) := storeStep cr fails r table
    some (k a, table)

/-- What the poll of a connection leads to. -/
def handlePoll (n : State) : Option HandlerEvent → State
  | none => n
  | some (.outboundSubstreamRequest cid) => { n with opening := n.opening ++ [cid] }
  | some (.notifyBehaviour event) =>
    { n with streams := n.streams ++ [onConnectionHandlerEvent event] }

/-- The next request of the receive loop. -/
def botgStep (fails : Bool) (sent : Except BoTgError Unit) (n : State) : Option State :=
  match n.botg with
  | .done _ => none
  | .ask (.store r) k =>
    let (a, table) := storeStep cr fails r n.table
    some { n with table, botg := k a }
  | .ask (.addPeer addr) k =>
    some { n with peerAddrs := addPeer n.peerAddrs addr, botg := k () }
  | .ask (.send _ _) k => some { n with botg := k sent }

/-- A step; `none` if the node cannot make it. -/
def step (n : State) : Event → Option State
  | .call c => some { n with handlers := n.handlers ++ [{ handler := c.handler cr px, tasks := [] }] }
  | .handler i fails => do
    let h ← n.handlers[i]?
    let (h, table) ← handlerStep cr fails h n.table
    return { n with table, handlers := n.handlers.set i h }
  | .join i j => do
    let h ← n.handlers[i]?
    let h ← joinStep j h
    return { n with handlers := n.handlers.set i h }
  | .task i j fails => do
    let h ← n.handlers[i]?
    let (h, table) ← taskStep cr fails j h n.table
    return { n with table, handlers := n.handlers.set i h }
  | .connect => some { n with connections := n.connections ++ [.new] }
  | .requestBlock i cid => do
    let c ← n.connections[i]?
    return { n with connections := n.connections.set i (c.onBehaviourEvent cid) }
  | .poll i => do
    let c ← n.connections[i]?
    return handlePoll { n with connections := n.connections.set i c.poll.2 } c.poll.1
  | .negotiated k sent frames => do
    let cid ← n.opening[k]?
    return { n with opening := n.opening.eraseIdx k,
                    streams := n.streams ++ [outboundStream cr cid sent frames] }
  | .stream k fails => do
    let s ← n.streams[k]?
    let (s, table) ← streamStep cr fails s n.table
    return { n with table, streams := n.streams.set k s }
  | .datagram addr msg =>
    match n.botg with
    | .done _ => some { n with botg := receive cr p addr msg }
    | .ask _ _ => none
  | .botg fails sent => botgStep cr fails sent n

/-- The states of a run, the first one included. -/
def states (n : State) : List Event → List State
  | [] => [n]
  | e :: es =>
    match step cr px p n e with
    | none => [n]
    | some n' => n :: states n' es

/-- The steps of a run, with the state before each. -/
def taken (n : State) : List Event → List (State × Event)
  | [] => []
  | e :: es =>
    match step cr px p n e with
    | none => []
    | some n' => (n, e) :: taken n' es

end

end Node
