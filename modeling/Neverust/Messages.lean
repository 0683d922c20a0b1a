import Neverust.Lib.Bytes

/-!
# Messages of the block exchange (`messages.rs`)

The wants of a peer and the answers to them. A CID is in its byte form.
-/

namespace Messages

/-- `BlockAddress`: a block by its CID, or a leaf of a tree by the tree's CID and its index. -/
structure BlockAddress where
  leaf : Bool
  treeCid : Bytes
  index : UInt64
  cid : Bytes
  deriving Repr, DecidableEq

namespace BlockAddress

def fromCid (cid : Bytes) : BlockAddress := { leaf := false, treeCid := [], index := 0, cid }

def fromTreeLeaf (treeCid : Bytes) (index : UInt64) : BlockAddress :=
  { leaf := true, treeCid, index, cid := [] }

def cidBytes (address : BlockAddress) : Bytes :=
  if address.leaf then address.treeCid else address.cid

end BlockAddress

structure ProofNode where
  hash : Bytes
  deriving Repr, DecidableEq

/-- `ArchivistProof` of a message. -/
structure ArchivistProof where
  mcodec : UInt64
  index : UInt64
  nleaves : UInt64
  path : List ProofNode
  deriving Repr, DecidableEq

inductive WantType
  | wantBlock
  | wantHave
  deriving Repr, DecidableEq

/-- `WantType::from_i32`. -/
def WantType.fromI32 (n : Int) : Option WantType :=
  if n = 0 then some .wantBlock else if n = 1 then some .wantHave else none

structure WantlistEntry where
  address : Option BlockAddress
  cancel : Bool
  wantType : Int
  sendDontHave : Bool
  deriving Repr, DecidableEq

/-- `WantlistEntry::cid_bytes`. -/
def WantlistEntry.cidBytes (entry : WantlistEntry) : Option Bytes :=
  entry.address.map BlockAddress.cidBytes

/-- `BlockDelivery`; a delivery of a leaf has a proof. -/
structure BlockDelivery where
  cid : Bytes
  data : Bytes
  address : Option BlockAddress
  proof : Option ArchivistProof
  deriving Repr, DecidableEq

namespace BlockDelivery

def fromCidAndData (cid data : Bytes) : BlockDelivery :=
  { cid, data, address := some (.fromCid cid), proof := none }

def fromTreeLeaf (cid data treeCid : Bytes) (index : UInt64) (proof : ArchivistProof) :
    BlockDelivery :=
  { cid, data, address := some (.fromTreeLeaf treeCid index), proof := some proof }

end BlockDelivery

inductive BlockPresenceType
  | presenceHave
  | presenceDontHave
  deriving Repr, DecidableEq

structure BlockPresence where
  address : Option BlockAddress
  type : BlockPresenceType
  price : Bytes
  deriving Repr, DecidableEq

def BlockPresence.fromCid (cid : Bytes) (type : BlockPresenceType) (price : Bytes) :
    BlockPresence :=
  { address := some (.fromCid cid), type, price }

/-- A response: the other fields of `Message` have their defaults in it. -/
structure Message where
  payload : List BlockDelivery
  blockPresences : List BlockPresence
  deriving Repr, DecidableEq

end Messages
