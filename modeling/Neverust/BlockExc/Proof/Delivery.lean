import Neverust.Api.Proof.Filled
import Neverust.BlockExc.Proof.Leaf

/-!
# Deliveries of leaves

`leaf_deliveries_verify`: from a store filled by uploads exactly the leaves of a stored manifest's
tree are delivered, each with its data and a proof that verifies against the CID of the tree. Several
manifests may name one tree: then they list the same leaves, and each of them is complete.
-/

namespace BlockExc

open Rust Storage Request Messages Api Chunks

/-- The proof of a message as the tree takes it. -/
def treeProof (p : Messages.ArchivistProof) : Tree.ArchivistProof :=
  { index := p.index.toNat, nleaves := p.nleaves.toNat, path := p.path.map ProofNode.hash }

/-! ## What a server asks of the store -/

/-- Calls that change nothing. -/
def IsRead : StoreReq → Prop
  | .get _ => True
  | .listCids => True
  | _ => False

section
variable {cr : Crates} {px : Prost}

theorem makes_leafDelivery (treeCid : Cid) (index : UInt64) (m : Manifest) :
    Makes IsRead (leafDelivery cr treeCid index m) := by
  unfold leafDelivery
  split
  · exact Makes.pure _
  · refine Makes.request_bind trivial fun r => ?_
    cases r with
    | error e => exact Makes.pure _
    | ok metadataBlock =>
      refine Makes.lift_bind fun cids _ => ?_
      cases cids with
      | none => exact Makes.pure _
      | some blockCids =>
        dsimp only
        split
        · exact Makes.pure _
        · refine Makes.request_bind trivial fun r => ?_
          cases r with
          | error e => exact Makes.pure _
          | ok leafBlock =>
            refine Makes.lift_bind fun tree _ => ?_
            cases tree with
            | none => exact Makes.pure _
            | some tree =>
              refine Makes.lift_bind fun proof _ => ?_
              cases proof with
              | none => exact Makes.pure _
              | some proof => exact Makes.pure _

theorem makes_resolveFrom (treeCid : Cid) (index : UInt64) :
    ∀ cids : List Cid, Makes IsRead (resolveFrom cr px treeCid index cids)
  | [] => Makes.pure _
  | c :: cids => by
    unfold resolveFrom
    split
    · exact makes_resolveFrom treeCid index cids
    · refine Makes.request_bind trivial fun r => ?_
      cases r with
      | error e => exact makes_resolveFrom treeCid index cids
      | ok manifestBlock =>
        dsimp only
        split
        · exact makes_resolveFrom treeCid index cids
        · split
          · exact makes_resolveFrom treeCid index cids
          · exact makes_leafDelivery treeCid index _

theorem makes_resolveLeafDelivery (treeCid : Cid) (index : UInt64) :
    Makes IsRead (resolveLeafDelivery cr px treeCid index) :=
  Makes.request_bind (show IsRead .listCids from trivial) fun _ => makes_resolveFrom treeCid index _

/-- The keys of a table as CIDs. -/
def listed (cr : Crates) (t : Table) : List Cid := t.keys.filterMap cr.cidOfString

theorem mem_listed {t : Table} {c : Cid} {b : Block} (h : RedbStore.lookup cr c t = .ok b) :
    c ∈ listed cr t := by
  obtain ⟨-, hdata⟩ := RedbStore.lookup_eq_ok_iff.1 h
  refine List.mem_filterMap.2 ⟨cr.cidToString c, Std.ExtTreeMap.mem_keys.2 ?_,
    cr.cidOfString_toString c⟩
  rw [Std.ExtTreeMap.mem_iff_isSome_getElem?, hdata]
  rfl

/-- A server on a good store reads its table. -/
theorem run_resolve (t : Table) (treeCid : Cid) (index : UInt64) :
    (Prog.run (redb cr).answer (resolveLeafDelivery cr px treeCid index) (storeOf cr t)).1 =
      (resolveLeafDelivery cr px treeCid index).eval
        (contents (fun cid => RedbStore.lookup cr cid t) (listed cr t)) := by
  refine Prog.run_eq_eval (P := IsRead) (I := fun s => s = storeOf cr t) ?_
    (makes_resolveLeafDelivery treeCid index) rfl
  rintro r hr s rfl
  cases r with
  | get cid => exact ⟨rfl, rfl⟩
  | listCids => exact ⟨rfl, rfl⟩
  | putMany blocks => exact hr.elim
  | has cid => exact hr.elim
  | delete cid => exact hr.elim

end

/-! ## Leaves of a stored manifest -/

section
variable {cr : Crates} {px : Prost} {t : Table} {index : UInt64}

/-- A manifest of an upload whose blocks the table has is complete for its leaves, and for these
only. -/
theorem complete_iff (hcr : cr.Standard) {u : UploadRun} (hcount : u.InRange)
    (hheld : ∀ b ∈ u.blocks cr px, (redb cr).Holds (storeOf cr t) b) {blockCids : List Cid}
    {leafBlock : Block} :
    Complete cr (fun cid => RedbStore.lookup cr cid t) index
        (bodyManifest cr u.cfg.blockSize u.body).narrowed blockCids leafBlock ↔
      blockCids = bodyCids cr u.cfg.blockSize u.body ∧
        ∃ leaf, (cut u.cfg.blockSize u.body)[index.toNat]? = some leaf ∧
          leafBlock = shaBlock cr leaf := by
  have hlook : ∀ b ∈ u.blocks cr px, RedbStore.lookup cr b.cid t = .ok b := fun b hb =>
    RedbStore.lookup_eq_ok_iff.2 ⟨rfl, holds_storeOf.1 (hheld b hb)⟩
  have hmeta := hlook (metadataBlock cr u.cfg.blockSize u.body)
    (List.mem_append_right _ List.mem_cons_self)
  have hleaf : ∀ i : Nat, (bodyCids cr u.cfg.blockSize u.body)[i]? =
      ((cut u.cfg.blockSize u.body)[i]?).map (shaCid cr) := fun i => List.getElem?_map
  have hdata : ∀ {i : Nat} {leaf : Bytes}, (cut u.cfg.blockSize u.body)[i]? = some leaf →
      RedbStore.lookup cr (shaCid cr leaf) t = .ok (shaBlock cr leaf) := fun h =>
    hlook _ (List.mem_append_left _ (List.mem_map_of_mem (List.mem_of_getElem? h)))
  constructor
  · rintro ⟨⟨metadataCid, metadataBlock, hcid, hget, hlist⟩, leafCid, hat, hgetLeaf⟩
    rw [metadataCid_narrowed] at hcid
    cases hcid
    rw [hmeta] at hget
    cases hget
    rw [deserialize_metadata hcr hcount.count] at hlist
    cases hlist
    rw [hleaf, Option.map_eq_some_iff] at hat
    obtain ⟨leaf, hat, rfl⟩ := hat
    rw [hdata hat] at hgetLeaf
    exact ⟨rfl, leaf, hat, (Except.ok.inj hgetLeaf).symm⟩
  · rintro ⟨rfl, leaf, hat, rfl⟩
    exact ⟨⟨_, _, metadataCid_narrowed _ _, hmeta, deserialize_metadata hcr hcount.count⟩,
      _, by rw [hleaf, hat]; rfl, hdata hat⟩

/-- The proof of a delivery is the one the tree gives. -/
theorem deliveryOf_proof (treeCid : Cid) {blockCids : List Cid} (hlt : blockCids.length < 2 ^ 64)
    (leafBlock : Block) :
    ∃ proof, (deliveryOf cr treeCid index blockCids leafBlock).proof = some proof ∧
      treeProof proof = Tree.honestProof cr.sha256 (Tree.digests blockCids) index.toNat := by
  have hnleaves : (UInt64.ofNat (Tree.digests blockCids).length).toNat =
      (Tree.digests blockCids).length :=
    UInt64.toNat_ofNat_of_lt' (by rw [Tree.digests, List.length_map]; exact hlt)
  refine ⟨_, rfl, ?_⟩
  simp only [treeProof, Tree.honestProof, hnleaves, List.map_map]
  rfl

/-- The tree's proof of a leaf verifies against the CID of the tree. -/
theorem proof_verifies {n : Nat} {body : Bytes} (hcount : (cut n body).length < 2 ^ 32) {i : Nat}
    {leaf : Bytes} (hleaf : (cut n body)[i]? = some leaf) :
    Tree.verifyProof cr.sha256 (Tree.honestProof cr.sha256 (Tree.digests (bodyCids cr n body)) i)
      (shaCid cr leaf).hash.digest (bodyManifest cr n body).treeCid.hash.digest = .ok true := by
  have hlen : (Tree.digests (bodyCids cr n body)).length = (cut n body).length := by
    simp [Tree.digests, bodyCids]
  have hlt : i < (cut n body).length := (List.getElem?_eq_some_iff.1 hleaf).1
  have hdigest : (Tree.digests (bodyCids cr n body)).getD i [] = (shaCid cr leaf).hash.digest := by
    simp [Tree.digests, bodyCids, List.getD_eq_getElem?_getD, hleaf]
  rw [← hdigest]
  refine Tree.honestProof_accepted cr.sha256 ?_ (by rw [hlen]; exact hlt)
  have : usizeSize = 2 ^ 64 := rfl
  omega

end

/-! ## Filled stores -/

/-- A manifest that can be read is that of an upload whose blocks are there. -/
def Uploaded (cr : Crates) (px : Prost) (us : List UploadRun) (t : Table) : Prop :=
  ∀ (c : Cid) (b : Block) (m : Manifest), RedbStore.lookup cr c t = .ok b →
    Manifest.fromBlock cr px b = .ok m → ∃ u ∈ us, u.body ≠ [] ∧
      m = (bodyManifest cr u.cfg.blockSize u.body).narrowed ∧
      ∀ b ∈ u.blocks cr px, (redb cr).Holds (storeOf cr t) b

section
variable {cr : Crates} (hcr : cr.Standard) {px : Prost} {us : List UploadRun}
  (hrange : ∀ u ∈ us, u.InRange) (hcf : CollisionFree cr px us)

include hcr hrange hcf in
theorem uploaded_filled :
    ∃ t, filled cr px us RedbStore.empty = storeOf cr t ∧ Uploaded cr px us t := by
  obtain ⟨hagrees, hcomplete⟩ := filled_complete hcr px (consistent_blocks hcf)
    (fun u hu => ⟨hrange u hu, fun b hb => ⟨u, hu, hb⟩⟩) us (fun _ hu => hu)
    (RedbStore.agrees_empty _) (fun c d _ hd => by
      change (∅ : Table)[cr.cidToString c]? = some d at hd
      rw [Std.ExtTreeMap.getElem?_empty] at hd
      cases hd)
  refine ⟨_, eq_storeOf hagrees.1, fun c b m hb hm => ?_⟩
  rw [eq_storeOf hagrees.1] at hcomplete
  obtain ⟨rfl, hdata⟩ := RedbStore.lookup_eq_ok_iff.1 hb
  have hcodec : b.cid.codec = Manifest.manifestCodec := by
    by_contra hne
    rw [Manifest.fromBlock, if_pos hne] at hm
    cases hm
  obtain ⟨u, hu, hne, hcid, hheld⟩ := hcomplete _ _ hcodec hdata
  have hlast := hheld (manifestBlock cr px u.cfg.blockSize u.body)
    (List.mem_append_right _ (List.mem_cons_of_mem _ List.mem_cons_self))
  have hsame : b = manifestBlock cr px u.cfg.blockSize u.body := by
    refine Except.ok.inj (hb.symm.trans ?_)
    rw [hcid]
    exact RedbStore.lookup_eq_ok_iff.2 ⟨rfl, holds_storeOf.1 hlast⟩
  rw [hsame, fromBlock_manifestBlock] at hm
  exact ⟨u, hu, hne, (Except.ok.inj hm).symm, hheld⟩

omit hcr hrange hcf in
/-- The manifest that is found for a tree is that of an upload, too. -/
theorem found_manifest {t : Table} (hup : Uploaded cr px us t) {c : Cid} {b : Block} {m : Manifest}
    (hb : RedbStore.lookup cr c t = .ok b) (hm : Manifest.fromBlock cr px b = .ok m) :
    ∃ v ∈ us, v.body ≠ [] ∧ (bodyManifest cr v.cfg.blockSize v.body).treeCid = m.treeCid ∧
      (listed cr t).findSome? (namedManifest cr px (fun cid => RedbStore.lookup cr cid t) m.treeCid)
        = some (bodyManifest cr v.cfg.blockSize v.body).narrowed ∧
      ∀ b ∈ v.blocks cr px, (redb cr).Holds (storeOf cr t) b := by
  have hcodec : c.codec = Manifest.manifestCodec := by
    rw [← (RedbStore.lookup_eq_ok_iff.1 hb).1]
    by_contra hne
    rw [Manifest.fromBlock, if_pos hne] at hm
    cases hm
  have hself := @namedManifest_of cr px (fun cid => RedbStore.lookup cr cid t) _ _ _ hcodec hb hm
  cases hfind : (listed cr t).findSome?
      (namedManifest cr px (fun cid => RedbStore.lookup cr cid t) m.treeCid) with
  | none =>
    rw [List.findSome?_eq_none_iff.1 hfind c (mem_listed hb)] at hself
    cases hself
  | some m' =>
    obtain ⟨c', -, hnamed⟩ := List.exists_of_findSome?_eq_some hfind
    obtain ⟨b', hb', hm', htree⟩ := of_namedManifest hnamed
    obtain ⟨v, hv, hne, rfl, hheld⟩ := hup c' b' m' hb' hm'
    exact ⟨v, hv, hne, htree, rfl, hheld⟩

end

/-- **Leaf deliveries carry valid proofs.** -/
theorem leaf_deliveries_verify {cr : Crates} (hcr : cr.Standard) (px : Prost)
    {us : List UploadRun} (hrange : ∀ u ∈ us, u.InRange) (hcf : CollisionFree cr px us) {c : Cid}
    {b : Block} {m : Manifest}
    (hb : ((redb cr).answer (.get c) (filled cr px us RedbStore.empty)).1 = .ok b)
    (hm : Manifest.fromBlock cr px b = .ok m) :
    ∃ u ∈ us, m = (bodyManifest cr u.cfg.blockSize u.body).narrowed ∧ ∀ index : UInt64,
      let leaves := cut u.cfg.blockSize u.body
      let found := (Prog.run (redb cr).answer (resolveLeafDelivery cr px m.treeCid index)
        (filled cr px us RedbStore.empty)).1
      ((∃ d, found = .ok (some d)) ↔ index.toNat < leaves.length) ∧
        ∀ d, found = .ok (some d) → ∃ leaf proof, leaves[index.toNat]? = some leaf ∧
          d.data = leaf ∧ d.proof = some proof ∧
          Tree.verifyProof cr.sha256 (treeProof proof) (shaCid cr leaf).hash.digest
            m.treeCid.hash.digest = .ok true := by
  obtain ⟨t, ht, hup⟩ := uploaded_filled hcr hrange hcf
  rw [ht] at hb ⊢
  obtain ⟨u, hu, hneu, hmu, hheldu⟩ := hup c b m hb hm
  obtain ⟨v, hv, hnev, htree, hfind, hheldv⟩ := found_manifest hup hb hm
  refine ⟨u, hu, hmu, fun index => ?_⟩
  have htreeu : (bodyManifest cr u.cfg.blockSize u.body).treeCid = m.treeCid :=
    (congrArg Manifest.treeCid hmu).symm
  have hcids := bodyCids_of_tree hcr hcf hu hv (hrange u hu).pos (hrange v hv).pos hneu hnev
    (htreeu.trans htree.symm)
  have hlen : (cut u.cfg.blockSize u.body).length = (cut v.cfg.blockSize v.body).length := by
    simpa [bodyCids] using congrArg List.length hcids
  have hcomp := @complete_iff cr px t index hcr v (hrange v hv) hheldv
  have hfound : (Prog.run (redb cr).answer (resolveLeafDelivery cr px m.treeCid index)
      (storeOf cr t)).1 = (leafDelivery cr m.treeCid index
        (bodyManifest cr v.cfg.blockSize v.body).narrowed).eval
          (contents (fun cid => RedbStore.lookup cr cid t) (listed cr t)) := by
    rw [run_resolve]
    have heval : (resolveLeafDelivery cr px m.treeCid index).eval
        (contents (fun cid => RedbStore.lookup cr cid t) (listed cr t)) = _ :=
      resolveFrom_eval (listed cr t)
    rw [heval, hfind]
  dsimp only
  rw [hfound]
  by_cases hlt : index.toNat < (cut u.cfg.blockSize u.body).length
  · have hleaf := List.getElem?_eq_getElem hlt
    have hleafv := List.getElem?_eq_getElem (hlen ▸ hlt)
    rw [leafDelivery_complete (hcomp.2 ⟨rfl, _, hleafv, rfl⟩)]
    refine ⟨iff_of_true ⟨_, rfl⟩ hlt, fun d hd => ?_⟩
    cases hd
    have hmem : ∀ {w : UploadRun} {leaf : Bytes},
        (cut w.cfg.blockSize w.body)[index.toNat]? = some leaf →
        shaBlock cr leaf ∈ w.blocks cr px := fun h =>
      List.mem_append_left _ (List.mem_map_of_mem (List.mem_of_getElem? h))
    have hcid := congrArg (fun l : List Cid => l[index.toNat]?) hcids
    simp only [bodyCids, List.getElem?_map, hleaf, hleafv, Option.map_some,
      Option.some.injEq] at hcid
    have hsame := congrArg Block.data (consistent_blocks hcf _ _ ⟨v, hv, hmem hleafv⟩
      ⟨u, hu, hmem hleaf⟩ hcid.symm)
    have hbound : (bodyCids cr v.cfg.blockSize v.body).length < 2 ^ 64 := by
      rw [bodyCids, List.length_map]
      exact Nat.lt_trans (hrange v hv).count (by decide)
    obtain ⟨proof, hproof, hhonest⟩ := @deliveryOf_proof cr index m.treeCid _ hbound
      (shaBlock cr (cut v.cfg.blockSize v.body)[index.toNat])
    refine ⟨_, proof, hleaf, hsame, hproof, ?_⟩
    rw [hhonest, ← hcids, ← htreeu]
    exact proof_verifies (hrange u hu).count hleaf
  · rw [leafDelivery_incomplete fun blockCids leafBlock h => hlt (by
      obtain ⟨-, leaf, hat, -⟩ := hcomp.1 h
      rw [hlen]
      exact (List.getElem?_eq_some_iff.1 hat).1)]
    refine ⟨iff_of_false (fun h => ?_) hlt, fun d h => ?_⟩
    · obtain ⟨d, hd⟩ := h
      cases hd
    · cases h

/-- The upload of three bytes in blocks of one: a tree of two levels over three leaves. -/
def byteRun : UploadRun := { cfg := byteConfig, chunks := [.ok [7, 8, 9]], sched := sampleSchedule }

theorem collisionFree_byteRun : CollisionFree .standard .standard [byteRun] := by
  unfold CollisionFree
  decide +kernel

theorem byteRun_inRange : ∀ u ∈ [byteRun], u.InRange :=
  List.forall_mem_singleton.2 ⟨by decide, by decide, by decide⟩

/-- The store has the manifest of the upload. -/
theorem byteRun_manifest :
    ((redb .standard).answer (.get (manifestBlock .standard .standard 1 [7, 8, 9]).cid)
      (filled .standard .standard [byteRun] RedbStore.empty)).1 =
      .ok (manifestBlock .standard .standard 1 [7, 8, 9]) := by
  obtain ⟨-, hheld⟩ := @upload_holds .standard Crates.standard_standard .standard _
    (consistent_blocks collisionFree_byteRun) byteConfig (show 0 < byteConfig.blockSize by decide)
    (by decide) [7, 8, 9] (by decide) (by decide) (by decide)
    (fun b hb => ⟨byteRun, List.mem_cons_self, hb⟩) _ (RedbStore.agrees_empty _)
    sampleSchedule
  exact hheld _ (List.mem_append_right _ (List.mem_cons_of_mem _ List.mem_cons_self))

/-- The last leaf is delivered with its byte and a proof that verifies; there is no fourth. -/
theorem leaf_deliveries_verify_sample :
    let treeCid := (bodyManifest .standard 1 [7, 8, 9]).treeCid
    let found := fun index => (Prog.run (redb .standard).answer
      (resolveLeafDelivery .standard .standard treeCid index)
      (filled .standard .standard [byteRun] RedbStore.empty)).1
    (∃ d proof, found 2 = .ok (some d) ∧ d.data = [9] ∧ d.proof = some proof ∧
      Tree.verifyProof Crates.standard.sha256 (treeProof proof)
        (shaCid .standard [9]).hash.digest treeCid.hash.digest = .ok true) ∧
      ¬∃ d, found 3 = .ok (some d) := by
  obtain ⟨u, hu, -, hleaves⟩ := leaf_deliveries_verify Crates.standard_standard .standard
    byteRun_inRange collisionFree_byteRun byteRun_manifest
    (decode_bodyManifest .standard (by decide) [7, 8, 9])
  rw [List.mem_singleton.1 hu] at hleaves
  refine ⟨?_, fun h => absurd ((hleaves 3).1.1 h) (by decide)⟩
  obtain ⟨d, hd⟩ := (hleaves 2).1.2 (by decide)
  obtain ⟨leaf, proof, hleaf, hdata, hproof, hverify⟩ := (hleaves 2).2 d hd
  obtain rfl : leaf = [9] := (Option.some.inj hleaf).symm
  exact ⟨d, proof, hd, hdata, hproof, hverify⟩

end BlockExc
