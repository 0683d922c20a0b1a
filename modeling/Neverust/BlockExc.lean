import Neverust.Storage.Backend
import Neverust.Storage.Block

/-!
# The block exchange protocol (`blockexc.rs`)

The handler of a connection opens an outbound stream when the behaviour asks it for a block. On
the stream it sends the CID it wants and stores the blocks that come back.
-/

namespace BlockExc

open Storage Request

/-! ## The handler of a connection -/

/-- `BlockExcHandler`, the fields that its events change. -/
structure BlockExcHandler where
  pendingRequest : Option Cid
  outboundRequested : Bool
  hasActiveStream : Bool
  deriving Repr, DecidableEq

inductive BlockExcToBehaviour
  | blockReceived (cid : Cid) (data : Bytes)
  | blockPresence (cid : Cid) (hasBlock : Bool)
  deriving Repr, DecidableEq

/-- `ConnectionHandlerEvent`. -/
inductive HandlerEvent
  | outboundSubstreamRequest (cid : Cid)
  | notifyBehaviour (event : BlockExcToBehaviour)
  deriving Repr, DecidableEq

namespace BlockExcHandler

def new : BlockExcHandler :=
  { pendingRequest := none, outboundRequested := false, hasActiveStream := false }

/-- `on_behaviour_event`, for the event `RequestBlock`. -/
def onBehaviourEvent (cid : Cid) (h : BlockExcHandler) : BlockExcHandler :=
  { h with pendingRequest := some cid, outboundRequested := false }

/-- `poll`; `none` is `Pending`. -/
def poll (h : BlockExcHandler) : Option HandlerEvent × BlockExcHandler :=
  match h.pendingRequest with
  | none => (none, h)
  | some cid =>
    if h.outboundRequested then (none, { h with pendingRequest := none })
    else (some (.outboundSubstreamRequest cid),
      { h with pendingRequest := none, outboundRequested := true })

/-- The handler of a connection tells the behaviour nothing: it only opens streams. -/
theorem poll_ne_notify (h : BlockExcHandler) (event : BlockExcToBehaviour) :
    h.poll.1 ≠ some (.notifyBehaviour event) := by
  unfold poll
  split
  · nofun
  · split
    · nofun
    · nofun

end BlockExcHandler

/-! ## Streams -/

/-- A block of a message. -/
structure MsgBlock where
  cid : Bytes
  data : Bytes
  deriving Repr, DecidableEq

structure Message where
  payload : List MsgBlock
  deriving Repr, DecidableEq

/-- The task of a stream: it calls the block store, and its end has no value. -/
abbrev Stream := Prog StoreReq StoreAns Empty Unit

section
variable (cr : Crates)

def putQuietly (block : Block) : Stream := do
  let _ ← (Prog.request (.put block) : Prog StoreReq StoreAns Empty _)
  return ()

/-- One block of a response. -/
def storeReceived (requestedCid : Cid) (b : MsgBlock) : Stream :=
  match CidBlake3.verifyBlake3 cr b.data requestedCid with
  | .error _ => pure ()
  | .ok () =>
    match Block.fromCidAndData cr requestedCid b.data with
    | .error _ => pure ()
    | .ok block => putQuietly block

/-- One frame of the stream, `none` if it does not decode. -/
def readFrame (requestedCid : Cid) : Option Message → Stream
  | none => pure ()
  | some response => response.payload.foldlM (fun _ b => storeReceived cr requestedCid b) ()

/-- The task of an outbound stream: `sent` tells if the request was sent, `frames` what can be read
until the stream ends. -/
def outboundStream (requestedCid : Cid) (sent : Bool) (frames : List (Option Message)) : Stream :=
  if sent then frames.foldlM (fun _ frame => readFrame cr requestedCid frame) () else pure ()

/-- `on_connection_handler_event`: the task it starts for the store. -/
def onConnectionHandlerEvent : BlockExcToBehaviour → Stream
  | .blockReceived cid data => putQuietly { cid, data }
  | .blockPresence _ _ => pure ()

end

end BlockExc
