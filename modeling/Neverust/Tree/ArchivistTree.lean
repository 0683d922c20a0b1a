import Neverust.Cid
import Neverust.Lib.Rust

/-!
# The Archivist Merkle tree (`archivist_tree.rs`)

The tree over a list of block CIDs, the proofs it hands out and the proof check. SHA-256 is a
parameter `sha256`; every function that hashes takes it.
-/

namespace Tree

open Rust

/-- `ArchivistTreeError`. -/
inductive TreeError
  | emptyBlockList
  | indexOutOfBounds (index leaves : Nat)
  | noLayers
  | invalidRootLayer (count : Nat)
  | multihashError (msg : String)
  | cidError (msg : String)
  deriving Repr, DecidableEq

/-- The texts of the errors. -/
def TreeError.text : TreeError → String
  | .emptyBlockList => "Cannot create tree from empty block list"
  | .indexOutOfBounds index leaves => s!"Index {index} out of bounds (tree has {leaves} leaves)"
  | .noLayers => "Tree has no layers"
  | .invalidRootLayer count => s!"Invalid tree: root layer has {count} nodes instead of 1"
  | .multihashError msg => s!"Failed to create multihash: {msg}"
  | .cidError msg => s!"Failed to create CID: {msg}"

/-- The key byte of a compression. -/
inductive TreeKey
  | none
  | bottomLayer
  | odd
  | oddAndBottomLayer
  deriving Repr, DecidableEq

/-- `key as u8`. -/
def TreeKey.toByte : TreeKey → UInt8
  | .none => 0
  | .bottomLayer => 1
  | .odd => 2
  | .oddAndBottomLayer => 3

/-- `TreeKey::from`: an invalid value is `none`. -/
def TreeKey.ofByte (b : UInt8) : TreeKey :=
  if b = 0 then .none
  else if b = 1 then .bottomLayer
  else if b = 2 then .odd
  else if b = 3 then .oddAndBottomLayer
  else .none

/-- A Merkle proof: the leaf's index, the number of leaves and the sibling digests from the leaf
to the root. -/
structure ArchivistProof where
  index : Nat
  nleaves : Nat
  path : List Bytes
  deriving Repr, DecidableEq

/-- The layers from the leaves to the root, and the CIDs the leaves come from. -/
structure ArchivistTree where
  layers : List (List Bytes)
  blockCids : List Cid
  deriving Repr, DecidableEq

/-- The digest that stands for a missing sibling. -/
def zeroHash : Bytes := List.replicate 32 0

section
variable (sha256 : Bytes → Bytes)

/-- `compress`: the digest of both children and the key byte. -/
def compress (left right : Bytes) (key : TreeKey) : Result TreeError Bytes :=
  .ok (sha256 (left ++ right ++ [key.toByte]))

def buildNextLayer (current : List Bytes) (isBottomLayer : Bool) :
    Result TreeError (List Bytes) := do
  let len := current.length
  let pairs ← (List.range (len / 2)).mapM fun i => do
    let left ← index current (2 * i)
    let right ← index current (2 * i + 1)
    compress sha256 left right (if isBottomLayer then .bottomLayer else .none)
  if len % 2 = 1 then
    let last ← index current (len - 1)
    let hash ← compress sha256 last zeroHash (if isBottomLayer then .oddAndBottomLayer else .odd)
    pure (pairs ++ [hash])
  else
    pure pairs

/-- The loop of `build_layers`, for at most `fuel` rounds. -/
def buildLayersLoop : Nat → List (List Bytes) → Bool → Result TreeError (List (List Bytes))
  | 0, _, _ => .error .fuel
  | fuel + 1, layers, isBottomLayer =>
    match layers.getLast? with
    | none => .error (.panic .index)
    | some current =>
      if current.length = 1 ∧ isBottomLayer = false then .ok layers
      else do
        let next ← buildNextLayer sha256 current isBottomLayer
        buildLayersLoop fuel (layers ++ [next]) false

/-- `build_layers`. One round more than there are leaves is enough for every nonempty list
(`buildLayers_eq`); from no leaves the source's loop does not end. -/
def buildLayers (leaves : List Bytes) : Result TreeError (List (List Bytes)) :=
  buildLayersLoop sha256 (leaves.length + 1) [leaves] true

/-- `ArchivistTree::new`. -/
def ArchivistTree.new (blockCids : List Cid) : Result TreeError ArchivistTree :=
  if blockCids = [] then .error (.err .emptyBlockList)
  else do
    let layers ← buildLayers sha256 (blockCids.map fun cid => cid.hash.digest)
    pure { layers, blockCids }

end

/-- `root_cid`. -/
def ArchivistTree.rootCid (t : ArchivistTree) : Result TreeError Cid :=
  match t.layers.getLast? with
  | none => .error (.err .noLayers)
  | some rootLayer =>
    match rootLayer with
    | [rootHash] =>
      match Multihash.wrap 0x12 rootHash with
      | .ok mh => .ok (Cid.newV1 0xcd03 mh)
      | .error msg => .error (.err (.multihashError msg))
    | _ => .error (.err (.invalidRootLayer rootLayer.length))

/-- One round of `get_proof`: the sibling at layer `i`, then the next position and width. -/
def proofRound (layers : List (List Bytes)) (s : List Bytes × Nat × Nat) (i : Nat) :
    Result TreeError (List Bytes × Nat × Nat) := do
  let (path, k, m) := s
  let j := k ^^^ 1
  let siblingHash ← if j < m then do index (← index layers i) j else pure zeroHash
  let m' ← usizeAdd m 1
  pure (path ++ [siblingHash], k >>> 1, m' >>> 1)

/-- `get_proof`. -/
def ArchivistTree.getProof (t : ArchivistTree) (idx : Nat) : Result TreeError ArchivistProof :=
  match t.layers.head? with
  | none => .error (.err .noLayers)
  | some leaves =>
    let nleaves := leaves.length
    if nleaves ≤ idx then .error (.err (.indexOutOfBounds idx nleaves))
    else do
      let depth ← usizeSub t.layers.length 1
      let (path, _, _) ← (List.range depth).foldlM (proofRound t.layers) ([], idx, nleaves)
      pure { index := idx, nleaves, path }

/-- `depth`: the number of layers above the leaves. -/
def ArchivistTree.depth (t : ArchivistTree) : Nat := t.layers.length - 1

/-- The variables of `reconstruct_root`'s loop. -/
structure Climb where
  current : Bytes
  bottomFlag : TreeKey
  index : Nat
  m : Nat
  deriving Repr, DecidableEq

section
variable (sha256 : Bytes → Bytes)

/-- One round of `reconstruct_root`. -/
def Climb.round (c : Climb) (siblingHash : Bytes) : Result TreeError Climb := do
  let current ←
    if c.index &&& 1 ≠ 0 then
      compress sha256 siblingHash c.current c.bottomFlag
    else do
      if c.index = (← usizeSub c.m 1) then
        -- the last node of its layer, a single child
        compress sha256 c.current siblingHash (TreeKey.ofByte (c.bottomFlag.toByte + 2))
      else
        compress sha256 c.current siblingHash c.bottomFlag
  let m' ← usizeAdd c.m 1
  pure { current, bottomFlag := .none, index := c.index >>> 1, m := m' >>> 1 }

/-- `reconstruct_root`. -/
def reconstructRoot (path : List Bytes) (nleaves idx : Nat) (leaf : Bytes) :
    Result TreeError Bytes := do
  let c ← path.foldlM (Climb.round sha256)
    { current := leaf, bottomFlag := .bottomLayer, index := idx, m := nleaves }
  pure c.current

/-- `verify_proof`. -/
def verifyProof (proof : ArchivistProof) (leaf expectedRoot : Bytes) : Result TreeError Bool := do
  let reconstructed ← reconstructRoot sha256 proof.path proof.nleaves proof.index leaf
  pure (reconstructed == expectedRoot)

end

end Tree
