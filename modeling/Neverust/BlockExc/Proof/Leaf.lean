import Neverust.Api.Proof.Upload
import Neverust.BlockExc.Wantlist
import Neverust.Manifest.Proof.Codec
import Neverust.Tree.Proof.Verify

/-!
# Resolving a leaf

The content of a store is what it returns for each CID, and the order in which it lists its CIDs.

* `leafDelivery_eval`: a leaf is delivered exactly if its manifest is complete.
* `resolveFrom_eval`: the first manifest that names the tree decides.
* `leaf_order_iff`: when the order of the list does not matter.
-/

namespace BlockExc

open Rust Storage Request Messages

/-- A store that answers from its content. -/
def contents (get : Cid → Except StorageError Block) (cids : List Cid) :
    (r : StoreReq) → StoreAns r
  | .putMany _ => .ok ()
  | .get cid => get cid
  | .has cid => (get cid).toBool
  | .delete _ => .ok ()
  | .listCids => cids

section
variable {cr : Crates}

theorem length_readEntries :
    ∀ (n : Nat) {data : Bytes} {cids : List Cid}, Tree.readEntries cr n data = .ok cids →
      cids.length = n
  | 0, _, cids, h => by
    cases h
    rfl
  | n + 1, data, cids, h => by
    unfold Tree.readEntries at h
    obtain ⟨⟨cid, data'⟩, -, h⟩ := bind_eq_ok h
    obtain ⟨cids', hrest, h⟩ := bind_eq_ok h
    cases h
    exact congrArg (· + 1) (length_readEntries n hrest)

/-- The count of a block list has four bytes. -/
theorem length_deserializeBlockList {data : Bytes} {cids : List Cid}
    (h : Tree.deserializeBlockList cr data = .ok cids) : cids.length < 2 ^ 32 := by
  unfold Tree.deserializeBlockList at h
  obtain ⟨⟨countBytes, data'⟩, hcount, h⟩ := bind_eq_ok h
  have hlen : countBytes.length = 4 := by
    unfold Tree.readExact at hcount
    split at hcount
    · rename_i hle
      cases hcount
      rw [List.length_take, Nat.min_eq_left hle]
    · cases hcount
  have hlt := Bytes.ofLe_lt countBytes
  rw [hlen] at hlt
  rw [length_readEntries _ h]
  exact hlt

end

section
variable {cr : Crates} {px : Prost} {get : Cid → Except StorageError Block} {cids : List Cid}
  {treeCid : Cid} {index : UInt64}

/-- What a manifest needs for the delivery of its leaf: its block list, with the leaf in it, and the
block of the leaf. -/
structure Complete (cr : Crates) (get : Cid → Except StorageError Block) (index : UInt64)
    (m : Manifest) (blockCids : List Cid) (leafBlock : Block) : Prop where
  metadata : ∃ metadataCid metadataBlock, Api.metadataCidFromManifest cr m = some metadataCid ∧
    get metadataCid = .ok metadataBlock ∧
    Tree.deserializeBlockList cr metadataBlock.data = .ok blockCids
  leaf : ∃ leafCid, blockCids[index.toNat]? = some leafCid ∧ get leafCid = .ok leafBlock

/-- The delivery of a leaf of a complete manifest. -/
def deliveryOf (cr : Crates) (treeCid : Cid) (index : UInt64) (blockCids : List Cid)
    (leafBlock : Block) : BlockDelivery :=
  let proof := Tree.honestProof cr.sha256 (Tree.digests blockCids) index.toNat
  .fromTreeLeaf (cr.cidToBytes (blockCids.getD index.toNat treeCid)) leafBlock.data
    (cr.cidToBytes treeCid) index
    { mcodec := treeCid.hash.code, index, nleaves := UInt64.ofNat proof.nleaves,
      path := proof.path.map ProofNode.mk }

theorem storeGet_eval {α : Type} (cid : Cid) (f : Except StorageError Block → Server α) :
    (storeGet cid >>= f).eval (contents get cids) = (f (get cid)).eval (contents get cids) :=
  rfl

theorem lift_eval {α β : Type} {r : Result Empty α} {a : α} (hr : r = .ok a)
    (f : α → Server β) :
    ((liftM r : Server α) >>= f).eval (contents get cids) = (f a).eval (contents get cids) := by
  subst hr
  rfl

theorem leafDelivery_complete {m : Manifest} {blockCids : List Cid} {leafBlock : Block}
    (h : Complete cr get index m blockCids leafBlock) :
    (leafDelivery cr treeCid index m).eval (contents get cids) =
      .ok (some (deliveryOf cr treeCid index blockCids leafBlock)) := by
  obtain ⟨metadataCid, metadataBlock, hmeta, hblock, hlist⟩ := h.metadata
  obtain ⟨leafCid, hleaf, hget⟩ := h.leaf
  have hlt : index.toNat < blockCids.length := (List.getElem?_eq_some_iff.1 hleaf).1
  have hne : blockCids ≠ [] := List.ne_nil_of_length_pos (Nat.lt_of_le_of_lt (Nat.zero_le _) hlt)
  obtain ⟨tree, htree⟩ := Tree.new_total cr.sha256 hne
  have hsmall : blockCids.length + 1 < usizeSize := by
    have := length_deserializeBlockList hlist
    have : usizeSize = 2 ^ 64 := rfl
    omega
  have hproof := Tree.getProof_eq cr.sha256 htree hlt hsmall
  have hcid : blockCids.getD index.toNat treeCid = leafCid := by
    rw [List.getD_eq_getElem?_getD, hleaf]
    rfl
  unfold leafDelivery
  rw [hmeta]
  dsimp only
  rw [storeGet_eval, hblock]
  dsimp only
  rw [lift_eval (show okOrNone _ = .ok (some blockCids) by rw [hlist]; rfl)]
  dsimp only
  rw [hleaf]
  dsimp only
  rw [storeGet_eval, hget]
  dsimp only
  rw [lift_eval (show okOrNone _ = .ok (some tree) by rw [htree]; rfl)]
  dsimp only
  rw [lift_eval (show okOrNone _ = .ok (some _) by rw [hproof]; rfl), deliveryOf, hcid]
  rfl

/-- A manifest that is not complete delivers nothing. -/
theorem leafDelivery_incomplete {m : Manifest}
    (h : ∀ blockCids leafBlock, ¬ Complete cr get index m blockCids leafBlock) :
    (leafDelivery cr treeCid index m).eval (contents get cids) = .ok none := by
  unfold leafDelivery
  cases hmeta : Api.metadataCidFromManifest cr m with
  | none => rfl
  | some metadataCid =>
    dsimp only
    rw [storeGet_eval]
    cases hblock : get metadataCid with
    | error e => rfl
    | ok metadataBlock =>
      dsimp only
      cases hlist : Tree.deserializeBlockList cr metadataBlock.data with
      | error e =>
        obtain ⟨e', rfl⟩ := Tree.deserializeBlockList_error hlist
        rfl
      | ok blockCids =>
        rw [lift_eval (show okOrNone _ = .ok (some blockCids) from rfl)]
        dsimp only
        cases hleaf : blockCids[index.toNat]? with
        | none => rfl
        | some leafCid =>
          dsimp only
          rw [storeGet_eval]
          cases hget : get leafCid with
          | error e => rfl
          | ok leafBlock =>
            exact absurd ⟨⟨metadataCid, metadataBlock, hmeta, hblock, hlist⟩, leafCid, hleaf, hget⟩
              (h blockCids leafBlock)

/-! ## The loop over the list -/

/-- The manifest under a CID, if it names the tree. -/
def namedManifest (cr : Crates) (px : Prost) (get : Cid → Except StorageError Block)
    (treeCid manifestCid : Cid) : Option Manifest :=
  if manifestCid.codec ≠ Manifest.manifestCodec then none
  else
    match get manifestCid with
    | .error _ => none
    | .ok manifestBlock =>
      match Manifest.fromBlock cr px manifestBlock with
      | .error _ => none
      | .ok manifest => if manifest.treeCid ≠ treeCid then none else some manifest

theorem namedManifest_of {c : Cid} {b : Block} {m : Manifest}
    (hcodec : c.codec = Manifest.manifestCodec) (hget : get c = .ok b)
    (hm : Manifest.fromBlock cr px b = .ok m) :
    namedManifest cr px get m.treeCid c = some m := by
  rw [namedManifest, if_neg (not_not.2 hcodec), hget]
  dsimp only
  rw [hm]
  exact if_neg (not_not.2 rfl)

theorem of_namedManifest {c : Cid} {m : Manifest}
    (h : namedManifest cr px get treeCid c = some m) :
    ∃ b, get c = .ok b ∧ Manifest.fromBlock cr px b = .ok m ∧ m.treeCid = treeCid := by
  unfold namedManifest at h
  split at h
  · cases h
  · split at h
    · cases h
    · rename_i b hb
      split at h
      · cases h
      · rename_i m' hm
        split at h
        · cases h
        · rename_i htree
          cases h
          exact ⟨b, hb, hm, not_not.1 htree⟩

/-- **The first manifest that names the tree decides.** -/
theorem resolveFrom_eval (l : List Cid) :
    (resolveFrom cr px treeCid index l).eval (contents get cids) =
      match l.findSome? (namedManifest cr px get treeCid) with
      | none => .ok none
      | some m => (leafDelivery cr treeCid index m).eval (contents get cids) := by
  induction l with
  | nil => rfl
  | cons c l ih =>
    have hskip : namedManifest cr px get treeCid c = none →
        (match (c :: l).findSome? (namedManifest cr px get treeCid) with
          | none => .ok none
          | some m => (leafDelivery cr treeCid index m).eval (contents get cids)) =
        (resolveFrom cr px treeCid index l).eval (contents get cids) := by
      intro hnone
      rw [List.findSome?_cons_of_isNone (by rw [hnone]; rfl), ih]
    rw [resolveFrom]
    by_cases hcodec : c.codec ≠ Manifest.manifestCodec
    · rw [if_pos hcodec, hskip (if_pos hcodec)]
    · rw [if_neg hcodec, storeGet_eval]
      cases hget : get c with
      | error e =>
        rw [hskip (by rw [namedManifest, if_neg hcodec, hget])]
      | ok manifestBlock =>
        dsimp only
        cases hm : Manifest.fromBlock cr px manifestBlock with
        | error e =>
          rw [hskip (by rw [namedManifest, if_neg hcodec, hget]; dsimp only; rw [hm])]
        | ok m =>
          dsimp only
          have hnamed : namedManifest cr px get treeCid c =
              if m.treeCid ≠ treeCid then none else some m := by
            rw [namedManifest, if_neg hcodec, hget]
            dsimp only
            rw [hm]
          by_cases htree : m.treeCid ≠ treeCid
          · rw [if_pos htree, hskip (hnamed.trans (if_pos htree))]
          · have hsome := hnamed.trans (if_neg htree)
            rw [if_neg htree, List.findSome?_cons_of_isSome (by rw [hsome]; rfl), hsome]

/-- The leaf is delivered. -/
def Resolves (cr : Crates) (px : Prost) (get : Cid → Except StorageError Block) (cids : List Cid)
    (treeCid : Cid) (index : UInt64) : Prop :=
  ∃ d, (resolveLeafDelivery cr px treeCid index).eval (contents get cids) = .ok (some d)

/-- The manifest has its block list and its leaf in the store. -/
def IsComplete (cr : Crates) (get : Cid → Except StorageError Block) (index : UInt64)
    (m : Manifest) : Prop :=
  ∃ blockCids leafBlock, Complete cr get index m blockCids leafBlock

theorem resolves_iff :
    Resolves cr px get cids treeCid index ↔
      ∃ m, cids.findSome? (namedManifest cr px get treeCid) = some m ∧
        IsComplete cr get index m := by
  have heval : (resolveLeafDelivery cr px treeCid index).eval (contents get cids) = _ :=
    resolveFrom_eval cids
  unfold Resolves
  rw [heval]
  cases cids.findSome? (namedManifest cr px get treeCid) with
  | none => simp
  | some m =>
    simp only [Option.some.injEq, exists_eq_left']
    constructor
    · rintro ⟨d, hd⟩
      by_contra hinc
      rw [leafDelivery_incomplete fun blockCids leafBlock h => hinc ⟨blockCids, leafBlock, h⟩] at hd
      cases hd
    · rintro ⟨blockCids, leafBlock, h⟩
      exact ⟨_, leafDelivery_complete h⟩

/-- The first CID of a list decides, if it is that of a manifest that names the tree. -/
theorem resolves_cons {c : Cid} {l : List Cid} {m : Manifest}
    (h : namedManifest cr px get treeCid c = some m) :
    Resolves cr px get (c :: l) treeCid index ↔ IsComplete cr get index m := by
  rw [resolves_iff, List.findSome?_cons_of_isSome (by rw [h]; rfl), h]
  simp

end

/-- **When the order of the list does not matter**: when of the manifests that name the tree all are
complete, or none is. Only then a complete one is always found. -/
theorem leaf_order_iff (cr : Crates) (px : Prost) (get : Cid → Except StorageError Block)
    (cids : List Cid) (treeCid : Cid) (index : UInt64) :
    ((∀ l l' : List Cid, l.Perm cids → l'.Perm cids →
        (Resolves cr px get l treeCid index ↔ Resolves cr px get l' treeCid index)) ∧
      ((∃ c ∈ cids, ∃ m, namedManifest cr px get treeCid c = some m ∧ IsComplete cr get index m) →
        ∀ l : List Cid, l.Perm cids → Resolves cr px get l treeCid index)) ↔
      (∀ c ∈ cids, ∀ m, namedManifest cr px get treeCid c = some m → IsComplete cr get index m) ∨
      ∀ c ∈ cids, ∀ m, namedManifest cr px get treeCid c = some m → ¬ IsComplete cr get index m := by
  constructor
  · rintro ⟨horder, -⟩
    by_contra hmixed
    rw [not_or] at hmixed
    obtain ⟨hall, hnone⟩ := hmixed
    simp only [not_forall] at hall hnone
    obtain ⟨c, hc, m, hm, hinc⟩ := hall
    obtain ⟨c', hc', m', hm', hcomp⟩ := hnone
    have hiff := horder (c :: cids.erase c) (c' :: cids.erase c')
      (List.perm_cons_erase hc).symm (List.perm_cons_erase hc').symm
    rw [resolves_cons hm, resolves_cons hm'] at hiff
    exact hinc (hiff.2 (not_not.1 hcomp))
  · intro h
    have hiff : ∀ l : List Cid, l.Perm cids → (Resolves cr px get l treeCid index ↔
        ∃ c ∈ cids, ∃ m, namedManifest cr px get treeCid c = some m ∧
          IsComplete cr get index m) := by
      intro l hl
      rw [resolves_iff]
      constructor
      · rintro ⟨m, hfind, hcomp⟩
        obtain ⟨c, hc, hm⟩ := List.exists_of_findSome?_eq_some hfind
        exact ⟨c, hl.mem_iff.1 hc, m, hm, hcomp⟩
      · rintro ⟨c, hc, m, hm, hcomp⟩
        rcases h with hall | hnone
        · cases hfind : l.findSome? (namedManifest cr px get treeCid) with
          | none =>
            have := List.findSome?_eq_none_iff.1 hfind c (hl.mem_iff.2 hc)
            cases hm.symm.trans this
          | some m' =>
            obtain ⟨c', hc', hm'⟩ := List.exists_of_findSome?_eq_some hfind
            exact ⟨m', rfl, hall c' (hl.mem_iff.1 hc') m' hm'⟩
        · exact absurd hcomp (hnone c hc m hm)
    exact ⟨fun l l' hl hl' => (hiff l hl).trans (hiff l' hl').symm,
      fun hex l hl => (hiff l hl).2 hex⟩

/-! ## Two manifests of one tree -/

/-- The manifest of an upload with another filename. -/
def renamedManifest : Manifest := { Api.bodyManifest .standard 1 [7] with filename := none }

def renamedBlock : Block :=
  let data := renamedManifest.encoded .standard .standard
  { cid := Cid.newV1 Manifest.manifestCodec ⟨CidBlake3.blake3Code, Crates.standard.blake3 data⟩,
    data }

/-- The blocks of an upload, and the other manifest. -/
def renamedContent (cid : Cid) : Except StorageError Block :=
  if cid = renamedBlock.cid then .ok renamedBlock
  else if cid = (Api.manifestBlock .standard .standard 1 [7]).cid then
    .ok (Api.manifestBlock .standard .standard 1 [7])
  else if cid = (Api.metadataBlock .standard 1 [7]).cid then
    .ok (Api.metadataBlock .standard 1 [7])
  else if cid = (Api.shaBlock .standard [7]).cid then .ok (Api.shaBlock .standard [7])
  else .error (.blockNotFound (Crates.standard.cidToString cid))

/-- The manifest without the block list hides the other one if it is listed first. -/
theorem order_decides :
    ¬ ∀ (get : Cid → Except StorageError Block) (l l' : List Cid) (treeCid : Cid) (index : UInt64),
      l.Perm l' →
      (Resolves .standard .standard get l treeCid index ↔
        Resolves .standard .standard get l' treeCid index) := by
  intro h
  have hcodec : ¬ CidBlake3.archivistBlockCodec = Manifest.manifestCodec := by decide
  have hiff := h renamedContent
    [renamedBlock.cid, (Api.manifestBlock .standard .standard 1 [7]).cid]
    [(Api.manifestBlock .standard .standard 1 [7]).cid, renamedBlock.cid]
    (Api.bodyManifest .standard 1 [7]).treeCid 0 (List.Perm.swap _ _ _)
  have hne : (Api.manifestBlock .standard .standard 1 [7]).cid ≠ renamedBlock.cid :=
    fun heq => absurd (congrArg (fun c : Cid => c.hash.code) heq) (by
      show ¬ CidBlake3.sha2256Code = CidBlake3.blake3Code
      decide)
  have hdata : ∀ d, (Api.shaBlock .standard d).cid ≠ renamedBlock.cid ∧
      (Api.shaBlock .standard d).cid ≠ (Api.manifestBlock .standard .standard 1 [7]).cid :=
    fun d => ⟨fun heq => absurd (congrArg Cid.codec heq) hcodec,
      fun heq => absurd (congrArg Cid.codec heq) hcodec⟩
  have hnarrow : renamedManifest.narrowed = renamedManifest :=
    Manifest.narrowed_eq_iff.2 ⟨by decide, by decide, by decide, nofun, nofun, nofun⟩
  have hrenamed : namedManifest .standard .standard renamedContent
      (Api.bodyManifest .standard 1 [7]).treeCid renamedBlock.cid = some renamedManifest :=
    @namedManifest_of _ _ _ _ _ renamedManifest rfl (if_pos rfl) ((if_neg (not_not.2 rfl)).trans
      ((Manifest.decode_encode renamedManifest).trans (congrArg Except.ok hnarrow)))
  have hupload : namedManifest .standard .standard renamedContent
      (Api.bodyManifest .standard 1 [7]).treeCid
      (Api.manifestBlock .standard .standard 1 [7]).cid = some (Api.bodyManifest .standard 1 [7]) :=
    namedManifest_of rfl ((if_neg hne).trans (if_pos rfl))
      (Api.decode_bodyManifest .standard (by decide) [7])
  have hmeta : renamedContent (Api.metadataBlock .standard 1 [7]).cid =
      .ok (Api.metadataBlock .standard 1 [7]) :=
    (if_neg (hdata _).1).trans ((if_neg (hdata _).2).trans (if_pos rfl))
  have hleaf : ∃ b, renamedContent (Api.shaBlock .standard [7]).cid = .ok b := by
    rw [renamedContent, if_neg (hdata _).1, if_neg (hdata _).2]
    split
    · exact ⟨_, rfl⟩
    · exact ⟨_, if_pos rfl⟩
  obtain ⟨b, hb⟩ := hleaf
  rw [resolves_cons hrenamed, resolves_cons hupload] at hiff
  obtain ⟨_, _, ⟨metadataCid, _, hnone, -, -⟩, -⟩ := hiff.2 ⟨_, b,
    ⟨_, _, Api.metadataCid_bodyManifest 1 [7], hmeta,
      Api.deserialize_metadata Crates.standard_standard (by decide)⟩, _, rfl, hb⟩
  cases hnone

end BlockExc
