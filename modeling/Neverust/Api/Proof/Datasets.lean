import Neverust.Api.Proof.Calls
import Neverust.Api.Proof.Delete

/-!
# Datasets over uploads and deletes

* `Grows`: an upload and its tasks only add to a table, so the datasets that are there stay.
* `dataset_survives_iff`: over a run of uploads and deletes a dataset stays exactly if no delete is
  one of a dataset that has a CID in common with it.
* `shared_block_deleted`: files with a block in common share its CID, and the delete of one of them
  takes the block from the other.
-/

namespace Api

open Std (ExtTreeMap)
open Rust Storage Request Chunks

/-! ## Stores that only grow -/

/-- Without failures, `s'` has what `s` has. -/
def Grows (s s' : RedbStore) : Prop :=
  s.failures = [] → s'.failures = [] ∧ ∀ (k : String) (d : Bytes), s.table[k]? = some d →
    s'.table[k]? = some d

theorem Grows.refl (s : RedbStore) : Grows s s := fun h => ⟨h, fun _ _ hd => hd⟩

theorem Grows.trans {s s' s'' : RedbStore} (h : Grows s s') (h' : Grows s' s'') : Grows s s'' := by
  intro hs
  obtain ⟨hf, hk⟩ := h hs
  obtain ⟨hf', hk'⟩ := h' hf
  exact ⟨hf', fun k d hd => hk' k d (hk k d hd)⟩

/-- The calls of an upload. -/
def IsPut (r : StoreReq) : Prop := ∃ blocks, r = .putMany blocks

theorem put_grows {cr : Crates} {s₀ s : (redb cr).State} {r : StoreReq} (hr : IsPut r)
    (h : Grows s₀ s) : Grows s₀ ((redb cr).answer r s).2 := by
  obtain ⟨blocks, rfl⟩ := hr
  refine h.trans fun hs => ?_
  change (RedbStore.putMany cr false blocks s).2.failures = [] ∧ ∀ (k : String) (d : Bytes), _ →
    (RedbStore.putMany cr false blocks s).2.table[k]? = some d
  rw [RedbStore.putMany_of_nil hs]
  exact ⟨rfl, fun k d hd => RedbStore.insertAll_of_some blocks hd⟩

section
variable {cr : Crates}

theorem eq_storeOf {s : (redb cr).State} (h : RedbStore.failures s = []) :
    s = storeOf cr (RedbStore.table s) := by
  obtain ⟨table, failures⟩ := s
  change failures = [] at h
  subst h
  rfl

/-- The store after an upload. -/
theorem store_upload (hcr : cr.Standard) (px : Prost) (cfg : UploadConfig)
    (body : List (Except String Bytes)) (sched : Schedule) (t : Table) :
    ∃ t' : Table,
      (Handler.run (B := redb cr) (archivistUpload cr cfg px body) sched (storeOf cr t)).2.store =
        storeOf cr t' ∧
      ∀ (k : String) (d : Bytes), t[k]? = some d → t'[k]? = some d := by
  have hcalls := @calls_archivistUpload cr hcr IsPut (fun _ => True) (fun blocks _ => ⟨blocks, rfl⟩)
    (fun _ _ => trivial) cfg px body
  have hgrows : Within IsPut (Grows (storeOf cr t))
      (Handler.run (B := redb cr) (archivistUpload cr cfg px body) sched (storeOf cr t)).2 :=
    Within.run (fun _ hr _ hs => put_grows hr hs) sched hcalls (Within.start (Grows.refl _))
  obtain ⟨hf, hk⟩ := hgrows.store rfl
  exact ⟨_, eq_storeOf hf, hk⟩

/-- A dataset that is there stays. -/
theorem eval_of_subset {px : Prost} {t t' : Table} {cid : Cid} {cidStr : String} {d : Bytes}
    (hsub : ∀ (k : String) (d : Bytes), t[k]? = some d → t'[k]? = some d)
    (h : (retrieveLocalCidData cr px cid cidStr).eval (tableAns cr t) = .ok d) :
    (retrieveLocalCidData cr px cid cidStr).eval (tableAns cr t') = .ok d := by
  rw [← h]
  refine (Prog.eval_congr fun r hr => ?_).1
  have hgot := FailsOn.not_bad (failsOn_retrieve cid cidStr) h r hr
  obtain ⟨c, rfl⟩ := Prog.of_mem_asked (isGet_retrieve cid cidStr) r hr
  rw [tableAns_get, tableAns_get]
  cases hc : t[cr.cidToString c]? with
  | none =>
    refine absurd ⟨.blockNotFound (cr.cidToString c), ?_⟩ hgot
    rw [tableAns_get, RedbStore.lookup, hc]
  | some data => rw [RedbStore.lookup, RedbStore.lookup, hc, hsub _ _ hc]

end

/-! ## Runs of uploads and deletes -/

inductive Op
  | upload (cfg : UploadConfig) (body : List (Except String Bytes)) (sched : Schedule)
  | delete (cid : Cid) (sched : Schedule)

section
variable (cr : Crates) (px : Prost)

/-- The store after an upload or a delete. -/
def Op.next (s : (redb cr).State) : Op → (redb cr).State
  | .upload cfg body sched =>
    (Handler.run (B := redb cr) (archivistUpload cr cfg px body) sched s).2.store
  | .delete cid sched => (Handler.run (B := redb cr) (archivistDelete cr px cid) sched s).2.store

/-- A delete of `cid'` leaves the dataset of `cid` alone: they have no CID in common. -/
def Op.Spares (s : (redb cr).State) (cid : Cid) : Op → Prop
  | .upload _ _ _ => True
  | .delete cid' _ =>
    ∀ c ∈ contents cr px (RedbStore.table s) cid', c ∉ contents cr px (RedbStore.table s) cid

/-- The stores of a run, the first one included. -/
def states : List Op → (redb cr).State → List (redb cr).State
  | [], s => [s]
  | op :: ops, s => s :: states ops (op.next cr px s)

/-- Every step of the run spares the dataset. -/
def Spared (cid : Cid) : List Op → (redb cr).State → Prop
  | [], _ => True
  | op :: ops, s => op.Spares cr px s cid ∧ Spared cid ops (op.next cr px s)

/-- A retrieval returns `d`, whatever the schedule. -/
def Retrieves (s : (redb cr).State) (cid : Cid) (cidStr : String) (d : Bytes) : Prop :=
  ∀ sched : Schedule,
    (Handler.run (B := redb cr) (retrieveLocalCidData cr px cid cidStr) sched s).1 = .ok d

end

section
variable {cr : Crates} {px : Prost} {t : Table} {cid : Cid} {cidStr : String} {d : Bytes}

theorem retrieves_iff : Retrieves cr px (storeOf cr t) cid cidStr d ↔
    (retrieveLocalCidData cr px cid cidStr).eval (tableAns cr t) = .ok d := by
  constructor
  · intro h
    rw [← run_retrieve px { advance := fun _ => [], pick := id } t cid cidStr]
    exact h _
  · intro h sched
    rw [run_retrieve px sched t cid cidStr]
    exact h

/-- **One step**: a dataset that is there stays exactly if the step spares it. -/
theorem next_iff (hcr : cr.Standard) (op : Op) (h : Retrieves cr px (storeOf cr t) cid cidStr d) :
    ∃ t', op.next cr px (storeOf cr t) = storeOf cr t' ∧
      (Retrieves cr px (storeOf cr t') cid cidStr d ↔ op.Spares cr px (storeOf cr t) cid) := by
  cases op with
  | upload cfg body sched =>
    obtain ⟨t', hnext, hsub⟩ := store_upload hcr px cfg body sched t
    refine ⟨t', hnext, iff_of_true ?_ trivial⟩
    exact retrieves_iff.2 (eval_of_subset hsub (retrieves_iff.1 h))
  | delete cid' sched =>
    refine ⟨_, store_delete px sched t cid', ?_⟩
    rw [retrieves_iff]
    exact eval_removeAll_iff (retrieves_iff.1 h) _

theorem mem_states (ops : List Op) (s : (redb cr).State) : s ∈ states cr px ops s := by
  cases ops with
  | nil => exact List.mem_singleton_self s
  | cons op ops => exact List.mem_cons_self

/-- **A dataset stays over a run exactly if every delete spares it.** -/
theorem dataset_survives_iff (hcr : cr.Standard) (ops : List Op)
    (h : Retrieves cr px (storeOf cr t) cid cidStr d) :
    (∀ s ∈ states cr px ops (storeOf cr t), Retrieves cr px s cid cidStr d) ↔
      Spared cr px cid ops (storeOf cr t) := by
  induction ops generalizing t with
  | nil =>
    refine iff_of_true (fun s hs => ?_) trivial
    rw [List.mem_singleton.1 hs]
    exact h
  | cons op ops ih =>
    obtain ⟨t', hnext, hiff⟩ := next_iff hcr op h
    rw [states, Spared, hnext]
    constructor
    · intro hall
      have hstays := hall _ (List.mem_cons_of_mem _ (mem_states ops (storeOf cr t')))
      exact ⟨hiff.1 hstays, (ih hstays).1 fun s hs => hall s (List.mem_cons_of_mem _ hs)⟩
    · rintro ⟨hspares, hspared⟩ s hs
      rcases List.mem_cons.1 hs with rfl | hs
      · exact h
      · exact (ih (hiff.2 hspares)).2 hspared s hs

end

/-! ## Two files with a block in common -/

section
variable {cr : Crates} (hcr : cr.Standard) {px : Prost} {n : Nat}
include hcr

/-- The contents of an uploaded file. -/
theorem contents_upload (hn32 : n < 2 ^ 32) {body : Bytes} (hmax : (cut n body).length < 2 ^ 32)
    {t : Table} (hheld : ∀ b ∈ uploadBlocks cr px n body, (redb cr).Holds (storeOf cr t) b) :
    contents cr px t (manifestBlock cr px n body).cid =
      bodyCids cr n body ++ [(metadataBlock cr n body).cid] ++
        [(manifestBlock cr px n body).cid] := by
  have hlook : ∀ b ∈ uploadBlocks cr px n body, RedbStore.lookup cr b.cid t = .ok b := by
    intro b hb
    have hget := hheld b hb
    rw [Backend.Holds, answer_get] at hget
    exact hget
  have hman := hlook (manifestBlock cr px n body)
    (List.mem_append_right _ (List.mem_cons_of_mem _ List.mem_cons_self))
  have hmeta := hlook (metadataBlock cr n body) (List.mem_append_right _ List.mem_cons_self)
  rw [contents, partsOf_eq rfl hman (decode_bodyManifest px hn32 body)
    (metadataCid_bodyManifest n body), blocksOf_eq hmeta (deserialize_metadata hcr hmax)]

omit hcr in
theorem holds_storeOf {t : Table} {b : Block} :
    (redb cr).Holds (storeOf cr t) b ↔ t[cr.cidToString b.cid]? = some b.data :=
  RedbStore.holds_iff rfl

/-- An upload keeps the blocks that a good store holds. -/
theorem upload_keeps {s : (redb cr).State} (hs : RedbStore.failures s = []) (cfg : UploadConfig)
    (body : List (Except String Bytes)) (sched : Schedule) {b : Block} (hb : (redb cr).Holds s b) :
    (redb cr).Holds (Op.next cr px s (.upload cfg body sched)) b := by
  rw [eq_storeOf hs] at hb ⊢
  obtain ⟨t', hnext, hsub⟩ := store_upload hcr px cfg body sched (RedbStore.table s)
  rw [Op.next, hnext, holds_storeOf]
  exact hsub _ _ (holds_storeOf.1 hb)

/-- A good store holds the blocks of a file after its upload. -/
theorem upload_holds {K : Block → Prop} (hK : Consistent K) {cfg : UploadConfig}
    (hn : 0 < cfg.blockSize) (hn32 : cfg.blockSize < 2 ^ 32) {body : Bytes} (hne : body ≠ [])
    (hsmall : body.length < 2 ^ 63) (hmax : (cut cfg.blockSize body).length < 2 ^ 32)
    (hKb : ∀ b ∈ uploadBlocks cr px cfg.blockSize body, K b) {s : (redb cr).State}
    (hs : RedbStore.Agrees cr K s) (sched : Schedule) :
    RedbStore.Agrees cr K (Op.next cr px s (.upload cfg [.ok body] sched)) ∧
      ∀ b ∈ uploadBlocks cr px cfg.blockSize body,
        (redb cr).Holds (Op.next cr px s (.upload cfg [.ok body] sched)) b := by
  have ctx : Context cr (redb cr) K (RedbStore.Agrees cr K) True :=
    ⟨hcr, fun _ => RedbStore.faithful hK, fun _ => hK⟩
  have hbody : [body].flatten = body := List.append_nil body
  obtain ⟨cid, -, -, hgood⟩ := Ends.exists_ok (upload_ends ctx sched cfg px hn hne (by omega)
    hmax (fun _ => hKb) (fun _ => hs) hbody) fun _ _ h => h trivial
  exact hgood trivial

/-- A file whose blocks a good store holds can be retrieved. -/
theorem retrieves_upload {K : Block → Prop} (hK : Consistent K) (hn : 0 < n) (hn32 : n < 2 ^ 32)
    {body : Bytes} (hsmall : body.length < 2 ^ 63) (hmax : (cut n body).length < 2 ^ 32)
    {s : (redb cr).State} (hs : RedbStore.Agrees cr K s)
    (hheld : ∀ b ∈ uploadBlocks cr px n body, (redb cr).Holds s b) (cidStr : String) :
    Retrieves cr px s (manifestBlock cr px n body).cid cidStr body := by
  intro sched
  have ctx : Context cr (redb cr) K (RedbStore.Agrees cr K) True :=
    ⟨hcr, fun _ => RedbStore.faithful hK, fun _ => hK⟩
  obtain ⟨data, hdata, rfl, -⟩ := Ends.exists_ok (download_ends ctx sched trivial hn hn32 (by omega)
    hmax (SysOk.start fun _ => hs) hheld cidStr) fun _ _ => Nat.not_le_of_lt hsmall
  exact hdata

end

/-- Blocks of one byte. -/
def byteConfig : UploadConfig :=
  { blockSize := 1, commitBatchBlocks := 1, dedupeBlocks := false, hashWorkers := 1,
    inflightBatches := 1 }

/-- The store after the uploads of a file and of a longer one that begins with it. -/
def sharedStore : (redb .standard).State :=
  Op.next .standard .standard (Op.next .standard .standard RedbStore.empty
    (.upload byteConfig [.ok [1]] sampleSchedule)) (.upload byteConfig [.ok [1, 2]] sampleSchedule)

/-- The blocks of both files. -/
def sharedBlocks : List Block :=
  uploadBlocks .standard .standard 1 [1] ++ uploadBlocks .standard .standard 1 [1, 2]

theorem consistent_sharedBlocks : Consistent (· ∈ sharedBlocks) := by
  have h : ∀ a ∈ sharedBlocks, ∀ b ∈ sharedBlocks, a.cid = b.cid → a = b := by decide +kernel
  exact fun a b ha hb => h a ha b hb

/-- The store has all blocks of both files. -/
theorem sharedStore_spec : RedbStore.Agrees .standard (· ∈ sharedBlocks) sharedStore ∧
    ∀ b ∈ sharedBlocks, (redb .standard).Holds sharedStore b := by
  obtain ⟨hs₁, hb₁⟩ := @upload_holds _ Crates.standard_standard .standard _ consistent_sharedBlocks
    byteConfig (by decide) (by decide) [1] (by decide) (by decide) (by decide)
    (fun b hb => List.mem_append_left _ hb) _ (RedbStore.agrees_empty _) sampleSchedule
  obtain ⟨hs₂, hb₂⟩ := @upload_holds _ Crates.standard_standard .standard _ consistent_sharedBlocks
    byteConfig (by decide) (by decide) [1, 2] (by decide) (by decide) (by decide)
    (fun b hb => List.mem_append_right _ hb) _ hs₁ sampleSchedule
  refine ⟨hs₂, fun b hb => ?_⟩
  rcases List.mem_append.1 hb with hb | hb
  · exact upload_keeps Crates.standard_standard hs₁.1 _ _ _ (hb₁ b hb)
  · exact hb₂ b hb

theorem retrieves_short : Retrieves .standard .standard sharedStore
    (manifestBlock .standard .standard 1 [1]).cid "dataset" [1] :=
  retrieves_upload Crates.standard_standard consistent_sharedBlocks (by decide) (by decide)
    (by decide) (by decide) sharedStore_spec.1
    (fun b hb => sharedStore_spec.2 b (List.mem_append_left _ hb)) "dataset"

theorem retrieves_long : Retrieves .standard .standard sharedStore
    (manifestBlock .standard .standard 1 [1, 2]).cid "dataset" [1, 2] :=
  retrieves_upload Crates.standard_standard consistent_sharedBlocks (by decide) (by decide)
    (by decide) (by decide) sharedStore_spec.1
    (fun b hb => sharedStore_spec.2 b (List.mem_append_right _ hb)) "dataset"

/-- The files have the CID of the block `[1]` in common. -/
theorem not_spares : ¬ (Op.delete (manifestBlock .standard .standard 1 [1, 2]).cid
    sampleSchedule).Spares .standard .standard sharedStore
    (manifestBlock .standard .standard 1 [1]).cid := by
  have hs := eq_storeOf sharedStore_spec.1.1
  have hheld := sharedStore_spec.2
  rw [hs] at hheld
  intro h
  refine h (shaCid .standard [1]) ?_ ?_
  · rw [contents_upload Crates.standard_standard (by decide) (by decide)
      fun b hb => hheld b (List.mem_append_right _ hb)]
    exact List.mem_append_left _ (List.mem_append_left _ List.mem_cons_self)
  · rw [contents_upload Crates.standard_standard (by decide) (by decide)
      fun b hb => hheld b (List.mem_append_left _ hb)]
    exact List.mem_append_left _ (List.mem_append_left _ List.mem_cons_self)

/-- The delete of one of two different files takes a block of the other one. -/
theorem shared_block_deleted :
    ¬ ∀ (bodies : List Bytes) (m₁ m₂ : Cid) (cidStr : String) (d : Bytes),
      m₁ ≠ m₂ → m₁.codec = Manifest.manifestCodec → m₂.codec = Manifest.manifestCodec →
      Retrieves .standard .standard
        (bodies.foldl (fun s body => Op.next .standard .standard s
          (.upload byteConfig [.ok body] sampleSchedule)) RedbStore.empty) m₂ cidStr d →
      Retrieves .standard .standard
        (Op.next .standard .standard
          (bodies.foldl (fun s body => Op.next .standard .standard s
            (.upload byteConfig [.ok body] sampleSchedule)) RedbStore.empty)
          (.delete m₁ sampleSchedule)) m₂ cidStr d := by
  intro h
  have hne : (manifestBlock .standard .standard 1 [1, 2]).cid ≠
      (manifestBlock .standard .standard 1 [1]).cid := by
    intro heq
    have hshort := retrieves_short sampleSchedule
    rw [← heq, retrieves_long sampleSchedule] at hshort
    cases hshort
  have hstays := h [[1], [1, 2]] _ _ "dataset" [1] hne rfl rfl retrieves_short
  have hs := eq_storeOf sharedStore_spec.1.1
  have hshort := retrieves_short
  rw [hs] at hshort
  obtain ⟨t', hnext, hiff⟩ := next_iff Crates.standard_standard
    (.delete (manifestBlock .standard .standard 1 [1, 2]).cid sampleSchedule) hshort
  change Retrieves .standard .standard (Op.next .standard .standard sharedStore _) _ _ _ at hstays
  rw [hs, hnext] at hstays
  have hspares := hiff.1 hstays
  rw [← hs] at hspares
  exact not_spares hspares

theorem dataset_survives_sample :
    ¬ Spared .standard .standard (manifestBlock .standard .standard 1 [1]).cid
      [.delete (manifestBlock .standard .standard 1 [1, 2]).cid sampleSchedule] sharedStore ∧
    ¬ ∀ s ∈ states .standard .standard
        [.delete (manifestBlock .standard .standard 1 [1, 2]).cid sampleSchedule] sharedStore,
      Retrieves .standard .standard s (manifestBlock .standard .standard 1 [1]).cid "dataset"
        [1] := by
  have hs := eq_storeOf sharedStore_spec.1.1
  have hshort := retrieves_short
  have hnot : ¬ Spared .standard .standard (manifestBlock .standard .standard 1 [1]).cid
      [.delete (manifestBlock .standard .standard 1 [1, 2]).cid sampleSchedule] sharedStore :=
    fun h => not_spares h.1
  rw [hs] at hshort hnot ⊢
  exact ⟨hnot, fun h =>
    hnot ((dataset_survives_iff Crates.standard_standard _ hshort).1 h)⟩

end Api
