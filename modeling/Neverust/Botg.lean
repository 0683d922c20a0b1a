import Neverust.Storage.Backend

/-!
# Block exchange over UDP (`botg.rs`)

A node takes one datagram after the other. An `Announce` adds the sender to the known peers, a
`Request` is answered with the blocks of the store, and the block of a `Response` is stored.

A handler is a program that calls the block store, adds a peer or sends a message.
-/

namespace Botg

open Storage Request

structure SocketAddr where
  ip : Nat
  port : UInt16
  deriving Repr, DecidableEq

inductive BoTgMessage
  | announce (cids : List Bytes)
  | request (cids : List Bytes)
  | response (cid data : Bytes)
  deriving Repr, DecidableEq

inductive BoTgError
  | serialize (e : String)
  | sendUdp (e : String)
  | socketMissing
  | storeBlock (e : StorageError)
  | storeMissing
  | invalidCid
  deriving Repr, DecidableEq

/-- The text of an error; `storage` gives that of an error of the store. -/
def BoTgError.text (storage : StorageError → String) : BoTgError → String
  | .serialize e => "Encoding error: Failed to serialize message: " ++ e
  | .sendUdp e => "TGP error: Failed to send UDP: " ++ e
  | .socketMissing => "TGP error: UDP socket not initialized"
  | .storeBlock e => "TGP error: Failed to store block: " ++ storage e
  | .storeMissing => "TGP error: Block store not available"
  | .invalidCid => "Decoding error: Invalid CID"

inductive BotgReq
  | store (r : StoreReq)
  | addPeer (addr : SocketAddr)
  | send (addr : SocketAddr) (msg : BoTgMessage)

abbrev BotgAns : BotgReq → Type
  | .store r => StoreAns r
  | .addPeer _ => Unit
  | .send _ _ => Except BoTgError Unit

abbrev BotgProg (α : Type) := Prog BotgReq BotgAns BoTgError α

/-- What was set on the protocol before it started. -/
structure BoTgProtocol where
  blockStore : Bool
  udpSocket : Bool
  deriving Repr, DecidableEq

def storeCall (r : StoreReq) : BotgProg (StoreAns r) := Prog.request (BotgReq.store r)

section
variable (cr : Crates) (p : BoTgProtocol)

def sendMessage (addr : SocketAddr) (msg : BoTgMessage) : BotgProg Unit :=
  if p.udpSocket then do
    let r ← (Prog.request (BotgReq.send addr msg) : BotgProg (Except BoTgError Unit))
    liftM r
  else liftM (.error .socketMissing : Except BoTgError Unit)

/-- One CID of a `Request`. -/
def answerCid (addr : SocketAddr) (cidBytes : Bytes) : BotgProg Unit :=
  match cr.cidOfBytes cidBytes with
  | none => pure ()
  | some cid => do
    match ← storeCall (.get cid) with
    | .error _ => pure ()
    | .ok block => sendMessage p addr (.response cidBytes block.data)

def handleBlockRequest (addr : SocketAddr) (cids : List Bytes) : BotgProg Unit :=
  if p.blockStore then cids.foldlM (fun _ cidBytes => answerCid cr p addr cidBytes) ()
  else pure ()

/-- The block is stored under the CID that the message names. -/
def handleBlockResponse (cidBytes data : Bytes) : BotgProg Unit :=
  if p.blockStore then
    match cr.cidOfBytes cidBytes with
    | none => liftM (.error .invalidCid : Except BoTgError Unit)
    | some cid => do
      match ← storeCall (.put { cid, data }) with
      | .ok () => pure ()
      | .error e => liftM (.error (.storeBlock e) : Except BoTgError Unit)
  else liftM (.error .storeMissing : Except BoTgError Unit)

def handleMessage (addr : SocketAddr) : BoTgMessage → BotgProg Unit
  | .announce _ => Prog.request (BotgReq.addPeer addr)
  | .request cids => handleBlockRequest cr p addr cids
  | .response cid data => handleBlockResponse cr p cid data

/-- One round of `start_receive_loop`, for a datagram as `serde_json` reads it. -/
def receive (addr : SocketAddr) : Except String BoTgMessage → BotgProg Unit
  | .ok msg => handleMessage cr p addr msg
  | .error _ => pure ()

end

/-- `add_peer`. -/
def addPeer (peers : List SocketAddr) (addr : SocketAddr) : List SocketAddr :=
  if addr ∈ peers then peers else peers ++ [addr]

end Botg
