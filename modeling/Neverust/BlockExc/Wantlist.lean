import Neverust.Api.Download
import Neverust.Messages
import Neverust.Tree.ArchivistTree

/-!
# Wantlists (`blockexc.rs`)

What the task of an inbound stream answers to a wantlist, in altruistic and in marketplace mode, and
how it finds a leaf of a tree: among the stored manifests it looks for one that names the tree.
-/

namespace BlockExc

open Rust Storage Request Messages

/-- The task of an inbound stream, as far as it calls the block store. -/
abbrev Server (α : Type) := Prog StoreReq StoreAns (Stop Empty) α

/-- `Result::ok`. -/
def okOrNone {ε α : Type} : Result ε α → Result Empty (Option α)
  | .ok a => .ok (some a)
  | .error (.err _) => .ok none
  | .error (.panic p) => .error (.panic p)
  | .error .fuel => .error .fuel

def storeGet (cid : Cid) : Server (Except StorageError Block) :=
  Prog.request (StoreReq.get cid)

section
variable (cr : Crates) (px : Prost)

/-! ## Leaves -/

/-- `resolve_leaf_delivery` from the manifest it found. -/
def leafDelivery (treeCid : Cid) (index : UInt64) (manifest : Manifest) :
    Server (Option BlockDelivery) :=
  match Api.metadataCidFromManifest cr manifest with
  | none => return none
  | some metadataCid => do
    match ← storeGet metadataCid with
    | .error _ => return none
    | .ok metadataBlock =>
      match ← liftM (okOrNone (Tree.deserializeBlockList cr metadataBlock.data)) with
      | none => return none
      | some blockCids =>
        match blockCids[index.toNat]? with
        | none => return none
        | some leafCid =>
          match ← storeGet leafCid with
          | .error _ => return none
          | .ok leafBlock =>
            match ← liftM (okOrNone (Tree.ArchivistTree.new cr.sha256 blockCids)) with
            | none => return none
            | some tree =>
              match ← liftM (okOrNone (tree.getProof index.toNat)) with
              | none => return none
              | some proof =>
                let messageProof : ArchivistProof :=
                  { mcodec := treeCid.hash.code, index, nleaves := UInt64.ofNat proof.nleaves,
                    path := proof.path.map ProofNode.mk }
                return some (.fromTreeLeaf (cr.cidToBytes leafCid) leafBlock.data
                  (cr.cidToBytes treeCid) index messageProof)

/-- The loop over the stored CIDs: the first manifest that names the tree decides. -/
def resolveFrom (treeCid : Cid) (index : UInt64) : List Cid → Server (Option BlockDelivery)
  | [] => return none
  | manifestCid :: cids =>
    if manifestCid.codec ≠ Manifest.manifestCodec then resolveFrom treeCid index cids
    else do
      match ← storeGet manifestCid with
      | .error _ => resolveFrom treeCid index cids
      | .ok manifestBlock =>
        match Manifest.fromBlock cr px manifestBlock with
        | .error _ => resolveFrom treeCid index cids
        | .ok manifest =>
          if manifest.treeCid ≠ treeCid then resolveFrom treeCid index cids
          else leafDelivery cr treeCid index manifest

/-- `resolve_leaf_delivery`. -/
def resolveLeafDelivery (treeCid : Cid) (index : UInt64) : Server (Option BlockDelivery) := do
  let allCids ← (Prog.request StoreReq.listCids : Server (List Cid))
  resolveFrom cr px treeCid index allCids

/-- `has_leaf_block`. -/
def hasLeafBlock (treeCid : Cid) (index : UInt64) : Server Bool := do
  let delivery ← resolveLeafDelivery cr px treeCid index
  return delivery.isSome

/-! ## Altruistic mode -/

def pushBlock (r : Messages.Message) (delivery : BlockDelivery) : Messages.Message :=
  { r with payload := r.payload ++ [delivery] }

def pushPresence (r : Messages.Message) (address : BlockAddress) (type : BlockPresenceType) :
    Messages.Message :=
  { r with blockPresences := r.blockPresences ++ [{ address := some address, type, price := [0] }] }

/-- The answer to a `WantHave`. -/
def answerHave (r : Messages.Message) (entry : WantlistEntry) (address : BlockAddress)
    (have_ : Bool) : Messages.Message :=
  if have_ then pushPresence r address .presenceHave
  else if entry.sendDontHave then pushPresence r address .presenceDontHave
  else r

/-- One entry in altruistic mode. -/
def altruisticEntry (r : Messages.Message) (entry : WantlistEntry) : Server Messages.Message :=
  if entry.cancel then return r
  else
    match entry.address with
    | none => return r
    | some address =>
      let wantType := (WantType.fromI32 entry.wantType).getD .wantHave
      if address.leaf then
        match cr.cidOfBytes address.treeCid with
        | none => return r
        | some treeCid =>
          match wantType with
          | .wantHave => do
            let have_ ← hasLeafBlock cr px treeCid address.index
            return answerHave r entry address have_
          | .wantBlock => do
            match ← resolveLeafDelivery cr px treeCid address.index with
            | some delivery => return pushBlock r delivery
            | none => return r
      else
        match cr.cidOfBytes address.cid with
        | none => return r
        | some cid => do
          let block := (← storeGet cid).toOption
          match wantType with
          | .wantHave => return answerHave r entry address block.isSome
          | .wantBlock =>
            match block with
            | some block => return pushBlock r (.fromCidAndData (cr.cidToBytes cid) block.data)
            | none => return r

def noAnswers : Messages.Message := { payload := [], blockPresences := [] }

/-- The response in altruistic mode. -/
def altruistic (entries : List WantlistEntry) : Server Messages.Message :=
  entries.foldlM (altruisticEntry cr px) noAnswers

/-! ## Marketplace mode -/

/-- The block an entry of a wantlist names in marketplace mode. -/
def namedBlock (entry : WantlistEntry) : Server (Option (Cid × Block)) :=
  match entry.cidBytes.bind cr.cidOfBytes with
  | none => return none
  | some cid => do
    match ← storeGet cid with
    | .error _ => return none
    | .ok block => return some (cid, block)

/-- One entry after a payment. -/
def paidEntry (r : Messages.Message) (entry : WantlistEntry) : Server Messages.Message := do
  match ← namedBlock cr entry with
  | none => return r
  | some (cid, block) => return pushBlock r (.fromCidAndData (cr.cidToBytes cid) block.data)

/-- One entry without a payment. -/
def quoteEntry (pricePerByte : UInt64) (r : Messages.Message) (entry : WantlistEntry) :
    Server Messages.Message := do
  match ← namedBlock cr entry with
  | none => return r
  | some (cid, block) =>
    let blockPrice ← liftM (usizeMul block.data.length pricePerByte.toNat : Result Empty Nat)
    return { r with blockPresences := r.blockPresences ++
      [.fromCid (cr.cidToBytes cid) .presenceHave (Bytes.leBytes 8 blockPrice)] }

/-- The response in marketplace mode. -/
def marketplace (hasPayment : Bool) (pricePerByte : UInt64) (entries : List WantlistEntry) :
    Server Messages.Message :=
  if hasPayment then entries.foldlM (paidEntry cr) noAnswers
  else entries.foldlM (quoteEntry cr pricePerByte) noAnswers

/-- The response to a wantlist, `none` if none is sent. -/
def answerWantlist (mode : String) (pricePerByte : UInt64) (hasPayment : Bool)
    (entries : List WantlistEntry) : Server (Option Messages.Message) :=
  if mode = "altruistic" then do
    let response ← altruistic cr px entries
    if response.payload ≠ [] ∨ response.blockPresences ≠ [] then return some response
    else return none
  else if mode = "marketplace" then do
    let response ← marketplace cr hasPayment pricePerByte entries
    return some response
  else return none

end

end BlockExc
