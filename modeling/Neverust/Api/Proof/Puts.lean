import Neverust.Api.Directory
import Neverust.Api.Peers
import Neverust.Api.Proof.Hash
import Neverust.Manifest.Proof.Blocks

/-!
# What the handlers put

`PutsOnly A`: a call of the store that puts only blocks in `A`. If all authentic blocks are in `A`,
the handlers and their tasks put only blocks in `A`, whatever the store answers: they make the
blocks they put, or check them first.
-/

namespace Storage

/-- A call that puts only blocks in `A`. -/
def StoreReq.PutsOnly (A : Block → Prop) : StoreReq → Prop
  | .putMany blocks => ∀ b ∈ blocks, A b
  | _ => True

end Storage

namespace Api

open Rust Storage Request

/-- A request of a handler that leads to such calls only. -/
def ApiReq.PutsOnly (A : Block → Prop) : ApiReq → Prop
  | .store r => r.PutsOnly A
  | .spawn _ _ task => Makes (StoreReq.PutsOnly A) task
  | .next => True

/-- A request of a handler that leads to calls in `P` only. -/
def ApiReq.Calls (P : StoreReq → Prop) : ApiReq → Prop
  | .store r => P r
  | .spawn _ _ task => Makes P task
  | .next => True

section
variable {A : Block → Prop}

theorem makes_putMany {fail : StorageError → Internal} {blocks : List Block}
    (h : ∀ b ∈ blocks, A b) : Makes (ApiReq.PutsOnly A) (putMany fail blocks) :=
  Makes.request_bind h fun _ => Makes.lift _

theorem makes_putMany_one {fail : StorageError → Internal} {block : Block} (h : A block) :
    Makes (ApiReq.PutsOnly A) (putMany fail [block]) :=
  makes_putMany fun _ hb => List.mem_singleton.1 hb ▸ h

theorem makes_getBlock (missing : String) (fail : StorageError → Internal) (cid : Cid) :
    Makes (ApiReq.PutsOnly A) (getBlock missing fail cid) :=
  Makes.request_bind trivial fun _ => Makes.lift _

theorem wrap_eq_ok {ε α : Type} {f : ε → ApiError} {r : Except ε α} {a : α}
    (h : wrap f r = .ok a) : r = .ok a := by
  cases r with
  | ok b => exact congrArg Except.ok (Except.ok.inj h)
  | error e => cases h

end

/-! ## Uploads

An upload and its tasks only put authentic blocks. -/

section
variable {cr : Crates}

/-- The blocks to store are blocks of the batch. -/
theorem noteBlock_subset {A : Block → Prop} :
    ∀ (blocks : List Block) (s : List Cid × Option (List Cid) × List Block),
      (∀ b ∈ s.2.2, A b) → (∀ b ∈ blocks, A b) → ∀ b ∈ (blocks.foldl noteBlock s).2.2, A b
  | [], _, hs, _ => hs
  | block :: blocks, s, hs, hb => by
    rw [List.foldl_cons]
    refine noteBlock_subset blocks _ ?_ fun b h => hb b (List.mem_cons_of_mem block h)
    obtain ⟨blockCids, seenCids, toStore⟩ := s
    have hnew : ∀ b ∈ toStore ++ [block], A b := by
      intro b h
      rcases List.mem_append.1 h with h | h
      · exact hs b h
      · rw [List.mem_singleton.1 h]
        exact hb block List.mem_cons_self
    cases seenCids with
    | none => exact hnew
    | some seen =>
      simp only [noteBlock]
      split
      · exact hs
      · exact hnew

theorem authentic_of_new {data : Bytes} {b : Block} (h : Block.new cr data = .ok b) :
    b.Authentic cr := by
  rw [Block.new_eq] at h
  cases h
  exact digestOf_blake3 data

variable (hcr : cr.Standard)
include hcr

theorem authentic_of_newSha256 {data : Bytes} {b : Block} (h : Block.newSha256 cr data = .ok b) :
    b.Authentic cr := by
  rw [Block.newSha256_eq hcr] at h
  cases h
  exact digestOf_sha256 data

theorem of_hashRawBlocksParallel {A : Block → Prop} (hA : ∀ data, A (shaBlock cr data))
    {rawBlocks : List Bytes} {workers : Nat} {blocks : List Block}
    (h : hashRawBlocksParallel cr rawBlocks workers = .ok blocks) : ∀ b ∈ blocks, A b := by
  rw [hashRawBlocksParallel_eq hcr] at h
  cases h
  intro b hb
  obtain ⟨data, -, rfl⟩ := List.mem_map.1 hb
  exact hA data

/-- A block that a constructor makes. -/
theorem authentic_of_made {px : Prost} (x : Made) {b : Block} (h : x.block cr px = some b) :
    b.Authentic cr := by
  obtain ⟨b', hb', ha, -⟩ := x.block_eq px hcr
  rw [h] at hb'
  cases hb'
  exact ha

section
variable {P : StoreReq → Prop} {A : Block → Prop}
  (hP : ∀ blocks : List Block, (∀ b ∈ blocks, A b) → P (.putMany blocks))

omit hcr in
include hP in
theorem calls_putMany {fail : StorageError → Internal} {blocks : List Block}
    (h : ∀ b ∈ blocks, A b) : Makes (ApiReq.Calls P) (putMany fail blocks) :=
  Makes.request_bind (hP blocks h) fun _ => Makes.lift _

omit hcr in
include hP in
theorem calls_putMany_one {fail : StorageError → Internal} {block : Block}
    (h : A block) : Makes (ApiReq.Calls P) (putMany fail [block]) :=
  calls_putMany hP fun _ hb => List.mem_singleton.1 hb ▸ h

section
variable (hA : ∀ data, A (shaBlock cr data))
include hP hA

theorem calls_flushUploadRawBatch (workers : Nat) (st : UploadState) :
    Makes (ApiReq.Calls P) (flushUploadRawBatch cr workers st) := by
  unfold flushUploadRawBatch
  split
  · exact Makes.pure st
  · refine Makes.lift_bind fun blocks hblocks => ?_
    have hmem := noteBlock_subset blocks (st.blockCids, st.seenCids, []) (by simp)
      (of_hashRawBlocksParallel hcr hA (wrap_eq_ok hblocks))
    revert hmem
    generalize blocks.foldl noteBlock (st.blockCids, st.seenCids, []) = r
    obtain ⟨blockCids, seenCids, toStore⟩ := r
    intro hmem
    dsimp only
    split
    · exact Makes.bind (calls_putMany hP hmem) fun _ => Makes.pure _
    · exact Makes.pure _

theorem calls_processUploadRawBatchNoDedupe (workers : Nat) (rawBatch : List Bytes) :
    Makes P (processUploadRawBatchNoDedupe cr workers rawBatch) := by
  unfold processUploadRawBatchNoDedupe
  split
  · exact Makes.pure []
  · refine Makes.lift_bind fun blocks hblocks => ?_
    have hall := of_hashRawBlocksParallel hcr hA (wrap_eq_ok hblocks)
    refine Makes.request_bind (hP blocks hall) fun r => ?_
    exact Makes.bind (Makes.lift _) fun _ => Makes.pure _

omit hcr hP hA in
theorem calls_awaitOver (maxInflight : Nat) : ∀ (fuel : Nat) (st : UploadState),
    Makes (ApiReq.Calls P) (awaitOver maxInflight fuel st)
  | 0, st => by
    unfold awaitOver
    split
    · exact Makes.pure st
    · exact Makes.lift _
  | fuel + 1, st => by
    unfold awaitOver
    split
    · exact Makes.pure st
    · refine Makes.request_bind trivial fun r => ?_
      cases r with
      | none => exact Makes.lift _
      | some x => exact Makes.bind (Makes.lift _) fun st' => calls_awaitOver maxInflight fuel st'

omit hcr hP hA in
theorem calls_drain : ∀ (fuel : Nat) (st : UploadState), Makes (ApiReq.Calls P) (drain fuel st)
  | 0, st => Makes.lift _
  | fuel + 1, st => by
    refine Makes.request_bind trivial fun r => ?_
    cases r with
    | none => exact Makes.pure st
    | some x => exact Makes.bind (Makes.lift _) fun st' => calls_drain fuel st'

theorem calls_spawnBatch (cfg : UploadConfig) (st : UploadState) :
    Makes (ApiReq.Calls P) (spawnBatch cr cfg st) :=
  Makes.request_bind (calls_processUploadRawBatchNoDedupe hcr hP hA _ _) fun _ => Makes.pure _

theorem calls_commitBatch (cfg : UploadConfig) (st : UploadState) :
    Makes (ApiReq.Calls P) (commitBatch cr cfg st) := by
  unfold commitBatch
  split
  · split
    · exact calls_flushUploadRawBatch hcr hP hA _ _
    · exact Makes.bind (calls_spawnBatch hcr hP hA cfg st) fun st' => calls_awaitOver _ _ st'
  · exact Makes.pure st

theorem calls_takeChunk (cfg : UploadConfig) : ∀ (fuel : Nat) (st : UploadState) (rem : Bytes),
    Makes (ApiReq.Calls P) (takeChunk cr cfg fuel st rem)
  | 0, st, rem => by
    unfold takeChunk
    split
    · exact Makes.pure st
    · exact Makes.lift _
  | fuel + 1, st, rem => by
    unfold takeChunk
    split
    · exact Makes.pure st
    · exact Makes.bind (calls_commitBatch hcr hP hA cfg _) fun st' => calls_takeChunk cfg fuel st' _

theorem calls_readChunk (cfg : UploadConfig) (st : UploadState) (next : Except String Bytes) :
    Makes (ApiReq.Calls P) (readChunk cr cfg st next) := by
  refine Makes.lift_bind fun chunk _ => ?_
  split
  · exact Makes.pure st
  · split
    · exact Makes.lift _
    · exact calls_takeChunk hcr hP hA cfg _ _ _

theorem calls_spawnRest (cfg : UploadConfig) (st : UploadState) :
    Makes (ApiReq.Calls P) (spawnRest cr cfg st) := by
  unfold spawnRest
  split
  · exact calls_spawnBatch hcr hP hA cfg st
  · exact Makes.pure st

theorem calls_finishBlocks (cfg : UploadConfig) (st : UploadState) :
    Makes (ApiReq.Calls P) (finishBlocks cr cfg st) := by
  unfold finishBlocks
  dsimp only
  generalize (if st.currentBlock ≠ [] then pushBlock cfg st else st) = st
  split
  · exact calls_flushUploadRawBatch hcr hP hA _ _
  · refine Makes.bind (calls_spawnRest hcr hP hA cfg st) fun st' => ?_
    refine Makes.bind (calls_drain _ st') fun st'' => ?_
    exact Makes.bind (Makes.lift _) fun _ => Makes.pure _

/-- The part of an upload before the manifest. -/
theorem calls_readChunks (cfg : UploadConfig) (body : List (Except String Bytes))
    (st : UploadState) : Makes (ApiReq.Calls P) (body.foldlM (readChunk cr cfg) st) :=
  Makes.foldlM body st fun st next _ => calls_readChunk hcr hP hA cfg st next

end

section
variable (hauth : ∀ b : Block, b.Authentic cr → A b)
include hP hauth

theorem calls_storeManifest (cfg : UploadConfig) (px : Prost) (blockCids : List Cid)
    (datasetSize : UInt64) :
    Makes (ApiReq.Calls P) (storeManifest cr cfg px blockCids datasetSize) := by
  refine Makes.lift_bind fun tree _ => ?_
  refine Makes.lift_bind fun treeCid _ => ?_
  refine Makes.lift_bind fun metadataBlock hmeta => ?_
  have hlist := authentic_of_newSha256 hcr (wrap_eq_ok hmeta)
  refine Makes.bind (calls_putMany_one hP (hauth _ hlist)) fun _ => ?_
  refine Makes.bind (Makes.lift _) fun _ => ?_
  refine Makes.lift_bind fun manifestBlock hman => ?_
  have hblock : manifestBlock.Authentic cr :=
    authentic_of_made hcr (.manifest (.new treeCid (UInt64.ofNat cfg.blockSize) datasetSize none
        (some Manifest.sha256Codec) none
        (some (metadataTag ++ cr.cidToString metadataBlock.cid)) none) (.inr rfl) rfl)
      (congrArg Except.toOption (wrap_eq_ok hman))
  exact Makes.bind (calls_putMany_one hP (hauth _ hblock)) fun _ => Makes.pure _

theorem calls_archivistUpload (cfg : UploadConfig) (px : Prost)
    (body : List (Except String Bytes)) :
    Makes (ApiReq.Calls P) (archivistUpload cr cfg px body) := by
  have hA : ∀ data, A (shaBlock cr data) := fun data => hauth _ (digestOf_sha256 data)
  refine Makes.bind (calls_readChunks hcr hP hA cfg body _) fun st => ?_
  refine Makes.bind (calls_finishBlocks hcr hP hA cfg st) fun st' => ?_
  split
  · exact Makes.lift _
  · exact calls_storeManifest hcr hP hauth cfg px _ _

end

end

end

section
variable {cr : Crates} (hcr : cr.Standard) {A : Block → Prop} (hA : ∀ b, b.Authentic cr → A b)
include hcr hA

theorem makes_archivistUpload (cfg : UploadConfig) (px : Prost)
    (body : List (Except String Bytes)) :
    Makes (ApiReq.PutsOnly A) (archivistUpload cr cfg px body) := by
  refine Makes.mono (fun r hr => ?_) (calls_archivistUpload hcr
    (P := StoreReq.PutsOnly A) (fun _ h => h) hA cfg px body)
  cases r with
  | store r => exact hr
  | spawn startIdx expectedLen task => exact hr
  | next => trivial

theorem makes_archivistUploadRawBlock (body : List (Except String Bytes)) :
    Makes (ApiReq.PutsOnly A) (archivistUploadRawBlock cr body) := by
  refine Makes.lift_bind fun chunks _ => ?_
  dsimp only
  split
  · exact Makes.lift _
  · refine Makes.lift_bind fun block hblock => ?_
    exact Makes.bind (makes_putMany_one (hA _ (authentic_of_newSha256 hcr (wrap_eq_ok hblock))))
      fun _ => Makes.pure _

omit hcr in
theorem makes_storeBlock (body : Bytes) : Makes (ApiReq.PutsOnly A) (storeBlock cr body) := by
  unfold storeBlock
  split
  · exact Makes.lift _
  · refine Makes.lift_bind fun block hblock => ?_
    exact Makes.bind (makes_putMany_one (hA _ (authentic_of_new (wrap_eq_ok hblock)))) fun _ => Makes.pure _

/-! ## Downloads -/

omit hcr hA in
theorem makes_assemble (blockCids : List Cid) :
    Makes (ApiReq.PutsOnly A) (assemble cr blockCids) :=
  Makes.foldlM blockCids [] fun _ _ _ => Makes.bind (makes_getBlock _ _ _) fun _ => Makes.pure _

omit hcr hA in
theorem makes_retrieveLocalCidData (px : Prost) (cid : Cid) (cidStr : String) :
    Makes (ApiReq.PutsOnly A) (retrieveLocalCidData cr px cid cidStr) := by
  refine Makes.bind (makes_getBlock _ _ _) fun block => ?_
  split
  · refine Makes.lift_bind fun manifest _ => ?_
    split
    · exact Makes.lift _
    · refine Makes.bind (makes_getBlock _ _ _) fun metadataBlock => ?_
      refine Makes.lift_bind fun cids _ => ?_
      refine Makes.lift_bind fun expected _ => ?_
      split
      · exact Makes.lift _
      · refine Makes.lift_bind fun _ _ => ?_
        refine Makes.bind (makes_assemble cids) fun data => ?_
        split
        · exact Makes.lift _
        · exact Makes.pure data
  · exact Makes.pure _

theorem makes_acceptBody (cid : Cid) (data : Bytes) :
    Makes (ApiReq.PutsOnly A) (acceptBody cr cid data) := by
  unfold acceptBody
  split
  · refine Makes.lift_bind fun block hblock => ?_
    have hb := Block.fromCidAndData_authentic hcr (wrap_eq_ok hblock)
    exact Makes.bind (makes_putMany_one (hA block hb)) fun _ => Makes.pure data
  · exact Makes.pure data

theorem makes_tryPeers (cid : Cid) (cidStr : String) : ∀ peers : List PeerAnswer,
    Makes (ApiReq.PutsOnly A) (tryPeers cr cid cidStr peers)
  | [] => Makes.lift _
  | .body data :: _ => makes_acceptBody hcr hA cid data
  | .failed :: rest | .status _ :: rest | .unreadable :: rest => makes_tryPeers cid cidStr rest

theorem makes_archivistDownload (px : Prost) (cid : Cid) (cidStr : String)
    (peers : List PeerAnswer) :
    Makes (ApiReq.PutsOnly A) (archivistDownload cr px cid cidStr peers) := by
  refine Makes.bind (Makes.attempt (makes_retrieveLocalCidData px cid cidStr)) fun r => ?_
  split
  · exact Makes.pure _
  · exact makes_tryPeers hcr hA cid cidStr _
  · exact Makes.lift _

theorem makes_ensurePinLocally (cidStr : String) (peers : List PeerAnswer) :
    Makes (ApiReq.PutsOnly A) (ensurePinLocally cr cidStr peers) := by
  unfold ensurePinLocally
  split
  · exact Makes.pure _
  · rename_i cid _
    refine Makes.request_bind trivial fun found => ?_
    split
    · exact Makes.pure _
    · refine Makes.bind (Makes.attempt (makes_tryPeers hcr hA cid cidStr _)) fun r => ?_
      split
      · exact Makes.pure _
      · exact Makes.lift _
      · refine Makes.request_bind trivial fun stored => ?_
        split
        · exact Makes.pure _
        · exact Makes.pure _

/-! ## Removal -/

omit hcr hA in
theorem makes_deleteQuietly (cid : Cid) : Makes (ApiReq.PutsOnly A) (deleteQuietly cid) :=
  Makes.request_bind trivial fun _ => Makes.pure ()

omit hcr hA in
theorem makes_deleteBlocks (metadataCid : Cid) :
    Makes (ApiReq.PutsOnly A) (deleteBlocks cr metadataCid) := by
  refine Makes.request_bind trivial fun r => ?_
  split
  · exact Makes.pure ()
  · split
    · exact Makes.foldlM _ () fun _ cid _ => makes_deleteQuietly cid
    · exact Makes.pure ()
    · exact Makes.lift _
    · exact Makes.lift _

omit hcr hA in
theorem makes_deleteDataset (px : Prost) (cid : Cid) :
    Makes (ApiReq.PutsOnly A) (deleteDataset cr px cid) := by
  refine Makes.request_bind trivial fun r => ?_
  split
  · exact Makes.pure ()
  · split
    · exact Makes.pure ()
    · split
      · exact Makes.pure ()
      · exact Makes.bind (makes_deleteBlocks _) fun _ => makes_deleteQuietly _

omit hcr hA in
theorem makes_archivistDelete (px : Prost) (cid : Cid) :
    Makes (ApiReq.PutsOnly A) (archivistDelete cr px cid) := by
  unfold archivistDelete
  split
  · exact Makes.bind (makes_deleteDataset px cid) fun _ => makes_deleteQuietly cid
  · exact makes_deleteQuietly cid

/-! ## Directories -/

omit hcr hA in
theorem makes_resolveSize (px : Prost) (cid : Cid) (size : Option UInt64) :
    Makes (ApiReq.PutsOnly A) (resolveSize cr px cid size) := by
  cases size with
  | some size => exact Makes.pure size
  | none =>
    refine Makes.request_bind trivial fun r => ?_
    split
    · exact Makes.pure 0
    · dsimp only
      split
      · split
        · exact Makes.pure _
        · exact Makes.pure _
      · exact Makes.pure _

omit hcr hA in
theorem makes_readEntry (px : Prost) (i : Nat) (entry : CreateDirectoryEntryRequest) :
    Makes (ApiReq.PutsOnly A) (readEntry cr px i entry) := by
  unfold readEntry
  split
  · exact Makes.lift _
  · dsimp only
    split
    · exact Makes.pure none
    · split
      · exact Makes.lift _
      · exact Makes.bind (makes_resolveSize px _ _) fun _ => Makes.pure _

theorem makes_storeDirectory (px : Prost) (name : String)
    (entries : List FolderManifest.DirectoryEntry) :
    Makes (ApiReq.PutsOnly A) (storeDirectory cr px name entries) := by
  refine Makes.lift_bind fun dir _ => ?_
  refine Makes.lift_bind fun block hblock => ?_
  have hb : A block :=
    hA _ (authentic_of_made hcr (.directory dir) (congrArg Except.toOption (wrap_eq_ok hblock)))
  exact Makes.bind (makes_putMany_one hb) fun _ => Makes.pure _

omit hcr hA in
theorem makes_buildSubdirs (px : Prost) : ∀ {subdirs : List (String × DirNode)},
    (∀ p ∈ subdirs, Makes (ApiReq.PutsOnly A) (buildInner cr px p.2)) →
      Makes (ApiReq.PutsOnly A) (buildSubdirs cr px subdirs)
  | [], _ => by
    unfold buildSubdirs
    exact Makes.pure []
  | (name, subdir) :: rest, h => by
    unfold buildSubdirs
    refine Makes.bind (h _ List.mem_cons_self) fun r => ?_
    exact Makes.bind (makes_buildSubdirs px fun p hp => h p (List.mem_cons_of_mem _ hp))
      fun _ => Makes.pure _

theorem makes_buildInner (px : Prost) : ∀ d : DirNode,
    Makes (ApiReq.PutsOnly A) (buildInner cr px d)
  | .mk name files subdirs => by
    unfold buildInner
    exact Makes.bind (makes_buildSubdirs px fun p _ => makes_buildInner px p.2)
      fun _ => makes_storeDirectory hcr hA px name _
termination_by d => sizeOf d
decreasing_by
  rename_i hp
  have hlt := List.sizeOf_lt_of_mem hp
  obtain ⟨k, subdir⟩ := p
  simp only [Prod.mk.sizeOf_spec, DirNode.mk.sizeOf_spec] at hlt ⊢
  omega

theorem makes_archivistCreateDirectory (px : Prost) (req : CreateDirectoryRequest) :
    Makes (ApiReq.PutsOnly A) (archivistCreateDirectory cr px req) := by
  unfold archivistCreateDirectory
  split
  · exact Makes.lift _
  · refine Makes.bind (Makes.foldlM _ _ fun inputs p _ => ?_) fun inputs => ?_
    · exact Makes.bind (makes_readEntry px p.2 p.1) fun _ => Makes.pure _
    · exact Makes.bind (makes_buildInner hcr hA px _) fun _ => Makes.pure _

end

end Api
