import Neverust.Api.Proof.Upload
import Neverust.Storage.Redb

/-!
# What an upload is for

* `upload_download`: over a store that returns what was put, an upload succeeds and a download of
  the CID it returns gives the body back, whatever the chunks, the settings and the schedules.
* `upload_deterministic`: the CID an upload returns depends on the body and the block size only.
-/

namespace Api

open Rust Storage Request Chunks CidBlake3

section
variable {cr : Crates} (hcr : cr.Standard) (px : Prost)
include hcr

/-- **Upload then download is the identity.** -/
theorem upload_download {B : Backend} {Valid : (Block → Prop) → B.State → Prop}
    (hB : B.ReturnsWhatWasPut Valid) (cfg : UploadConfig) (hn : 0 < cfg.blockSize)
    (hn32 : cfg.blockSize < 2 ^ 32) (chunks : List Bytes) (hne : chunks.flatten ≠ [])
    (hsmall : chunks.flatten.length < 2 ^ 63)
    (hblocks : (chunks.flatten.length + cfg.blockSize - 1) / cfg.blockSize < 2 ^ 32)
    (hcf : Tree.NoCollision cr.sha256 (hashedData cr cfg.blockSize chunks.flatten)
      (hashedData cr cfg.blockSize chunks.flatten))
    {s : B.State} (hs : Valid (· ∈ uploadBlocks cr px cfg.blockSize chunks.flatten) s)
    (sched sched' : Schedule) (cidStr : String) :
    ∃ cid w, Handler.run (archivistUpload cr cfg px (chunks.map .ok)) sched s = (.ok cid, w) ∧
      (Handler.run (retrieveLocalCidData cr px cid cidStr) sched' w.store).1 =
        .ok chunks.flatten := by
  have hmax : (cut cfg.blockSize chunks.flatten).length < 2 ^ 32 := by rwa [length_cut]
  have hcons := @consistent_uploadBlocks cr px _ _ hcf
  have ctx : Context cr B (· ∈ uploadBlocks cr px cfg.blockSize chunks.flatten)
      (Valid (· ∈ uploadBlocks cr px cfg.blockSize chunks.flatten)) True :=
    ⟨hcr, fun _ => hB _ hcons, fun _ => hcons⟩
  obtain ⟨cid, hok, rfl, hheld⟩ := Ends.exists_ok (upload_ends ctx sched cfg px hn hne (by omega)
    hmax (fun _ b hb => hb) (fun _ => hs) rfl) fun _ _ h => h trivial
  obtain ⟨data, hdata, rfl, -⟩ := Ends.exists_ok (download_ends ctx sched' trivial hn hn32 (by omega)
    hmax (SysOk.start fun _ => (hheld trivial).1) (hheld trivial).2 cidStr) fun _ _ => Nat.not_le_of_lt hsmall
  exact ⟨_, _, Prod.ext hok rfl, hdata⟩

/-- The SHA-256 CIDs of the cut body, as the code computes them. -/
theorem mapM_sha256Cid (n : Nat) (body : Bytes) :
    (cut n body).mapM (sha256Cid cr) = .ok (bodyCids cr n body) :=
  mapM_ok fun data _ => sha256Cid_eq hcr data

/-- **The CID depends on the body and the block size only**: every upload that returns a CID
returns the same one, over any store, and over one that returns what was put every upload does. The
block list the manifest names is the list of the SHA-256 CIDs of the body cut every `n` bytes. -/
theorem upload_deterministic {n : Nat} (hn : 0 < n) (hn32 : n < 2 ^ 32) {body : Bytes}
    (hne : body ≠ []) (hsmall : body.length < 2 ^ 63)
    (hblocks : (body.length + n - 1) / n < 2 ^ 32) :
    ∃ cid,
      (∀ (B : Backend) (s : B.State) (sched : Schedule) (cfg : UploadConfig) (chunks : List Bytes),
        cfg.blockSize = n → chunks.flatten = body → ∀ c,
          (Handler.run (archivistUpload cr cfg px (chunks.map .ok)) sched s).1 = .ok c → c = cid) ∧
      (∀ (B : Backend) (Valid : (Block → Prop) → B.State → Prop), B.ReturnsWhatWasPut Valid →
        Tree.NoCollision cr.sha256 (hashedData cr n body) (hashedData cr n body) →
        ∀ (s : B.State), Valid (· ∈ uploadBlocks cr px n body) s →
        ∀ (sched : Schedule) (cfg : UploadConfig) (chunks : List Bytes),
          cfg.blockSize = n → chunks.flatten = body →
          (Handler.run (archivistUpload cr cfg px (chunks.map .ok)) sched s).1 = .ok cid) ∧
      ∃ (m : Manifest) (manifestBlock listBlock : Block) (cids : List Cid),
        m.toBlock cr px = .ok manifestBlock ∧ manifestBlock.cid = cid ∧
        metadataCidFromManifest cr m = some listBlock.cid ∧
        Block.newSha256 cr listBlock.data = .ok listBlock ∧
        Tree.deserializeBlockList cr listBlock.data = .ok cids ∧
        (cut n body).mapM (sha256Cid cr) = .ok cids := by
  have hmax : (cut n body).length < 2 ^ 32 := by rwa [length_cut]
  refine ⟨(manifestBlock cr px n body).cid, ?_, ?_, bodyManifest cr n body,
    manifestBlock cr px n body, metadataBlock cr n body, bodyCids cr n body,
    manifest_toBlock hcr px n body, rfl, metadataCid_bodyManifest n body,
    Block.newSha256_eq hcr _, deserialize_metadata hcr hmax, mapM_sha256Cid hcr n body⟩
  · rintro B s sched cfg chunks rfl hchunks c hc
    have ctx : Context cr B (fun _ => True) (fun _ => True) False :=
      ⟨hcr, fun h => h.elim, fun h => h.elim⟩
    exact (Ends.of_ok (upload_ends ctx sched cfg px hn hne (by omega) hmax
      (fun h => h.elim) (fun h => h.elim) hchunks) hc).1
  · rintro B Valid hB hcf s hs sched cfg chunks rfl hchunks
    have hcons := @consistent_uploadBlocks cr px _ _ hcf
    have ctx : Context cr B (· ∈ uploadBlocks cr px cfg.blockSize body)
        (Valid (· ∈ uploadBlocks cr px cfg.blockSize body)) True :=
      ⟨hcr, fun _ => hB _ hcons, fun _ => hcons⟩
    obtain ⟨cid, hok, rfl, -⟩ := Ends.exists_ok (upload_ends ctx sched cfg px hn hne (by omega)
      hmax (fun _ b hb => hb) (fun _ => hs) hchunks) fun _ _ h => h trivial
    exact hok

end

/-! ## A body of three bytes -/

/-- Blocks of two bytes, each of them a batch of its own, and two workers. -/
def sampleConfig (dedupeBlocks : Bool) : UploadConfig :=
  { blockSize := 2, commitBatchBlocks := 1, dedupeBlocks, hashWorkers := 2, inflightBatches := 1 }

/-- The tasks go on in reverse, and the waits end with the last one. -/
def sampleSchedule : Schedule := { advance := fun _ => [1, 0], pick := fun n => n + 1 }

theorem noCollision_hashedData :
    Tree.NoCollision Crates.standard.sha256 (hashedData .standard 2 [1, 2, 3])
      (hashedData .standard 2 [1, 2, 3]) := by
  decide +kernel

theorem upload_download_sample :
    ∃ cid w, Handler.run (B := RedbStore.backend .standard false)
        (archivistUpload .standard (sampleConfig false) .standard ([[1], [], [2, 3]].map .ok))
        sampleSchedule RedbStore.empty = (.ok cid, w) ∧
      (Handler.run (retrieveLocalCidData .standard .standard cid "dataset") sampleSchedule
        w.store).1 = .ok [1, 2, 3] :=
  upload_download Crates.standard_standard .standard RedbStore.returnsWhatWasPut
    (sampleConfig false) (by decide) (by decide) [[1], [], [2, 3]] (by decide) (by decide)
    (by decide) noCollision_hashedData (RedbStore.agrees_empty _) _ _ _

theorem upload_deterministic_sample :
    ∃ cid, ∀ d : Bool, ∀ chunks ∈ [[[1, 2, 3]], [[1], [], [2, 3]]],
      (Handler.run (B := RedbStore.backend .standard false)
        (archivistUpload .standard (sampleConfig d) .standard (chunks.map .ok)) sampleSchedule
        RedbStore.empty).1 = .ok cid := by
  obtain ⟨cid, -, hok, -⟩ := upload_deterministic Crates.standard_standard .standard
    (show 0 < 2 by decide) (by decide) (show ([1, 2, 3] : Bytes) ≠ [] by decide) (by decide)
    (by decide)
  refine ⟨cid, fun d chunks hchunks => ?_⟩
  refine hok _ _ RedbStore.returnsWhatWasPut noCollision_hashedData _ (RedbStore.agrees_empty _) _ _
    chunks rfl ?_
  rcases List.mem_cons.1 hchunks with rfl | hchunks
  · rfl
  · rw [List.mem_singleton.1 hchunks]
    rfl

end Api
