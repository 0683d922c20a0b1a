import Neverust.Api.Proof.Datasets
import Neverust.Tree.Proof.Commit

/-!
# Stores filled by uploads

Over any run of uploads, also of such that end with an error, a store that is empty first holds all
blocks of every upload whose manifest it has (`filled_complete`): the manifest is put last, and
only when everything before it has gone well. If nothing that was hashed collides, a CID tells the
data of these blocks (`consistent_blocks`), and the CID of a tree its leaves (`bodyCids_of_tree`).
-/

namespace Api

open Rust Storage Request Chunks

/-- An upload of a run. -/
structure UploadRun where
  cfg : UploadConfig
  chunks : List (Except String Bytes)
  sched : Schedule

namespace UploadRun

/-- The bytes that are read. -/
def body (u : UploadRun) : Bytes := (intake 0 u.chunks).1

/-- The blocks of these bytes. -/
def blocks (cr : Crates) (px : Prost) (u : UploadRun) : List Block :=
  uploadBlocks cr px u.cfg.blockSize u.body

/-- The manifest's CID. -/
def manifestCid (cr : Crates) (px : Prost) (u : UploadRun) : Cid :=
  (manifestBlock cr px u.cfg.blockSize u.body).cid

/-- The block size is a positive `usize`, and there are fewer than `2^32` blocks. -/
structure InRange (u : UploadRun) : Prop where
  pos : 0 < u.cfg.blockSize
  usize : u.cfg.blockSize < usizeSize
  count : (cut u.cfg.blockSize u.body).length < 2 ^ 32

end UploadRun

/-- The store after uploads. -/
def filled (cr : Crates) (px : Prost) (us : List UploadRun) (s : (redb cr).State) :
    (redb cr).State :=
  us.foldl (fun s u => Op.next cr px s (.upload u.cfg u.chunks u.sched)) s

/-! ## Manifests come last -/

/-- A call that puts data blocks. -/
def PutsData (r : StoreReq) : Prop :=
  ∃ blocks, r = .putMany blocks ∧ ∀ b ∈ blocks, b.cid.codec = CidBlake3.archivistBlockCodec

/-- A good store without a manifest that `t` does not have. -/
structure NoNew (cr : Crates) (t : Table) (s : (redb cr).State) : Prop where
  good : RedbStore.failures s = []
  old : ∀ (c : Cid) (d : Bytes), c.codec = Manifest.manifestCodec →
    (RedbStore.table s)[cr.cidToString c]? = some d → t[cr.cidToString c]? = some d

section
variable {cr : Crates} {t : Table}

theorem answer_put (blocks : List Block) {s : (redb cr).State} (h : RedbStore.failures s = []) :
    (redb cr).answer (.putMany blocks) s = (.ok (), ({
      table := RedbStore.insertAll cr (RedbStore.table s) blocks, failures := [] } : RedbStore)) :=
  RedbStore.putMany_of_nil h

theorem put_noNew {r : StoreReq} (hr : PutsData r) {s : (redb cr).State} (h : NoNew cr t s) :
    NoNew cr t ((redb cr).answer r s).2 := by
  obtain ⟨blocks, rfl, hdata⟩ := hr
  rw [answer_put blocks h.good]
  refine ⟨rfl, fun c d hc hd => ?_⟩
  rcases RedbStore.insertAll_cases blocks hd with hd | ⟨b, hb, hkey, -⟩
  · exact h.old c d hc hd
  · rw [← cr.cidToString_inj hkey, hdata b hb] at hc
    exact absurd hc (by decide)

section
variable (hcr : cr.Standard) (sched : Schedule) {w : Sys (redb cr)}
include hcr

theorem storeManifest_noNew (cfg : UploadConfig) (px : Prost) (blockCids : List Cid)
    (datasetSize : UInt64) (h : Within PutsData (NoNew cr t) w) :
    Ends (Sys.answer sched) (storeManifest cr cfg px blockCids datasetSize) w
      (fun cid w' => RedbStore.failures w'.store = [] ∧ ∀ (c : Cid) (d : Bytes),
        c.codec = Manifest.manifestCodec →
        (RedbStore.table w'.store)[cr.cidToString c]? = some d →
        t[cr.cidToString c]? = some d ∨ c = cid)
      (fun _ w' => NoNew cr t w'.store) := by
  have hlift : ∀ {α : Type} (r : Result ApiError α) {w : Sys (redb cr)},
      Within PutsData (NoNew cr t) w → Ends (Sys.answer sched) (liftM r : Handler α) w
        (fun a w' => r = .ok a ∧ Within PutsData (NoNew cr t) w')
        (fun _ w' => NoNew cr t w'.store) :=
    fun _ _ h => Ends.lift (fun _ ha => ⟨ha, h⟩) fun _ _ => h.store
  unfold storeManifest
  refine Ends.bind (hlift _ h) ?_
  rintro tree w₁ ⟨-, h₁⟩
  refine Ends.bind (hlift _ h₁) ?_
  rintro treeCid w₂ ⟨-, h₂⟩
  refine Ends.bind (hlift _ h₂) ?_
  rintro metadata w₃ ⟨hmeta, h₃⟩
  have hcodec : metadata.cid.codec = CidBlake3.archivistBlockCodec := by
    have hmeta' := wrap_eq_ok hmeta
    rw [Block.newSha256_eq hcr] at hmeta'
    cases hmeta'
    rfl
  refine Ends.bind (Ends.imp (Within.ends (fun _ hr _ hs => put_noNew hr hs) sched
    (@calls_putMany_one PutsData _ (fun blocks hb => ⟨blocks, rfl, hb⟩) .storeMetadata metadata
      hcodec) h₃) (fun _ _ hq => hq) fun _ _ he => he.store) ?_
  intro _ w₄ h₄
  refine Ends.bind (hlift _ h₄) ?_
  rintro _ w₅ ⟨-, h₅⟩
  refine Ends.bind (hlift _ h₅) ?_
  rintro manifest w₆ ⟨-, h₆⟩
  -- the manifest is the one block that is new
  have hidle := Within.idle (fun _ hr _ hs => put_noNew hr hs) sched h₆
  apply Ends.bind (Q := fun _ w' => RedbStore.failures w'.store = [] ∧ ∀ (c : Cid) (d : Bytes),
    c.codec = Manifest.manifestCodec → (RedbStore.table w'.store)[cr.cidToString c]? = some d →
    t[cr.cidToString c]? = some d ∨ c = manifest.cid)
  · apply storeCall_ends
    rw [answer_put _ hidle.store.good]
    refine Ends.lift (fun _ _ => ⟨rfl, fun c d hc hd => ?_⟩) fun _ he => nomatch he
    rcases RedbStore.insertAll_cases [manifest] hd with hd | ⟨b, hb, hkey, -⟩
    · exact .inl (hidle.store.old c d hc hd)
    · rw [List.mem_singleton.1 hb] at hkey
      exact .inr (cr.cidToString_inj hkey).symm
  · exact fun _ _ hq => Ends.pure hq

/-- **An upload puts at most one manifest**, the one whose CID it returns. -/
theorem upload_noNew (cfg : UploadConfig) (px : Prost) (chunks : List (Except String Bytes)) :
    Ends (Sys.answer sched) (archivistUpload cr cfg px chunks) (Sys.start (storeOf cr t))
      (fun cid w' => RedbStore.failures w'.store = [] ∧ ∀ (c : Cid) (d : Bytes),
        c.codec = Manifest.manifestCodec →
        (RedbStore.table w'.store)[cr.cidToString c]? = some d →
        t[cr.cidToString c]? = some d ∨ c = cid)
      (fun _ w' => NoNew cr t w'.store) := by
  have hstart : Within PutsData (NoNew cr t) (Sys.start (storeOf cr t)) :=
    Within.start ⟨rfl, fun _ _ _ hd => hd⟩
  have hkeep : ∀ {α : Type} {p : Handler α}, Makes (ApiReq.Calls PutsData) p →
      ∀ {w : Sys (redb cr)}, Within PutsData (NoNew cr t) w → Ends (Sys.answer sched) p w
        (fun _ w' => Within PutsData (NoNew cr t) w') (fun _ w' => NoNew cr t w'.store) :=
    fun hp _ h => Ends.imp (Within.ends (fun _ hr _ hs => put_noNew hr hs) sched hp h)
      (fun _ _ hq => hq) fun _ _ he => he.store
  have hP : ∀ blocks : List Block,
      (∀ b ∈ blocks, b.cid.codec = CidBlake3.archivistBlockCodec) → PutsData (.putMany blocks) :=
    fun blocks hb => ⟨blocks, rfl, hb⟩
  refine Ends.bind (hkeep (calls_readChunks hcr hP (fun _ => rfl) cfg chunks _) hstart) ?_
  intro st w h
  refine Ends.bind (hkeep (calls_finishBlocks hcr hP (fun _ => rfl) cfg st) h) ?_
  intro st' w' h'
  split
  · exact Ends.lift (fun _ hr => nomatch hr) fun _ _ => h'.store
  · exact storeManifest_noNew hcr sched cfg px _ _ h'

end

/-! ## The run -/

/-- A good store that has a manifest only if it is that of an upload in `U` and all blocks of the
upload are there. -/
def Complete (cr : Crates) (px : Prost) (U : UploadRun → Prop) (s : (redb cr).State) : Prop :=
  ∀ (c : Cid) (d : Bytes), c.codec = Manifest.manifestCodec →
    (RedbStore.table s)[cr.cidToString c]? = some d →
    ∃ u, U u ∧ u.body ≠ [] ∧ c = u.manifestCid cr px ∧ ∀ b ∈ u.blocks cr px, (redb cr).Holds s b

section
variable (hcr : cr.Standard) (px : Prost) {K : Block → Prop} (hK : Consistent K)
include hcr hK

/-- **One upload.** -/
theorem next_upload {u : UploadRun} (hu : u.InRange) (hKu : ∀ b ∈ u.blocks cr px, K b)
    {s : (redb cr).State} (hs : RedbStore.Agrees cr K s) :
    let s' := Op.next cr px s (.upload u.cfg u.chunks u.sched)
    RedbStore.Agrees cr K s' ∧ ∀ (c : Cid) (d : Bytes), c.codec = Manifest.manifestCodec →
      (RedbStore.table s')[cr.cidToString c]? = some d →
      (RedbStore.table s)[cr.cidToString c]? = some d ∨
        u.body ≠ [] ∧ c = u.manifestCid cr px ∧ ∀ b ∈ u.blocks cr px, (redb cr).Holds s' b := by
  have ctx : Context cr (redb cr) K (RedbStore.Agrees cr K) True :=
    ⟨hcr, fun _ => RedbStore.faithful hK, fun _ => hK⟩
  have hends := Ends.and (upload_cases ctx u.sched u.cfg px hu.pos hu.usize hu.count (fun _ => hKu)
    (fun _ => hs) rfl) (eq_storeOf hs.1 ▸ upload_noNew hcr u.sched u.cfg px u.chunks)
  unfold Op.next Handler.run
  unfold Ends at hends
  dsimp only
  cases hrun : (Prog.run (Sys.answer u.sched) (archivistUpload cr u.cfg px u.chunks)
    (Sys.start s)).1 with
  | ok cid =>
    rw [hrun] at hends
    obtain ⟨⟨hne, rfl, hgood⟩, -, hnew⟩ := hends
    obtain ⟨hvalid, hheld⟩ := hgood trivial
    refine ⟨hvalid, fun c d hc hd => ?_⟩
    rcases hnew c d hc hd with hold | hcid
    · exact .inl hold
    · exact .inr ⟨hne, hcid, hheld⟩
  | error e =>
    rw [hrun] at hends
    obtain ⟨hvalid, hold⟩ := hends
    exact ⟨(hvalid trivial).1, fun c d hc hd => .inl (hold.old c d hc hd)⟩

/-- **A store filled by uploads has complete uploads only.** -/
theorem filled_complete {U : UploadRun → Prop}
    (hU : ∀ u, U u → u.InRange ∧ ∀ b ∈ u.blocks cr px, K b) :
    ∀ (us : List UploadRun) {s : (redb cr).State}, (∀ u ∈ us, U u) → RedbStore.Agrees cr K s →
      Complete cr px U s →
      RedbStore.Agrees cr K (filled cr px us s) ∧ Complete cr px U (filled cr px us s)
  | [], _, _, hs, hc => ⟨hs, hc⟩
  | u :: us, s, hus, hs, hcomplete => by
    obtain ⟨hrange, hKu⟩ := hU u (hus u List.mem_cons_self)
    obtain ⟨hs', hnew⟩ := next_upload hcr px hK hrange hKu hs
    refine filled_complete hU us (fun v hv => hus v (List.mem_cons_of_mem u hv)) hs'
      fun c d hc hd => ?_
    rcases hnew c d hc hd with hold | ⟨hne, hcid, hheld⟩
    · obtain ⟨v, hv, hne, hcid, hheld⟩ := hcomplete c d hc hold
      exact ⟨v, hv, hne, hcid, fun b hb => upload_keeps hcr hs.1 u.cfg u.chunks u.sched (hheld b hb)⟩
    · exact ⟨u, hus u List.mem_cons_self, hne, hcid, hheld⟩

end

end

/-! ## Hashes -/

section
variable (cr : Crates) (px : Prost)

/-- The byte strings an upload hashes: for its CIDs, and for its tree. -/
def UploadRun.hashed (u : UploadRun) : List Bytes :=
  hashedData cr u.cfg.blockSize u.body ++
    ((bodyManifest cr u.cfg.blockSize u.body).encoded cr px ::
      Tree.treeInputs cr.sha256 (Tree.digests (bodyCids cr u.cfg.blockSize u.body)))

/-- Nothing that the uploads hash collides. -/
def CollisionFree (us : List UploadRun) : Prop :=
  Tree.NoCollision cr.sha256 (us.flatMap (UploadRun.hashed cr px))
    (us.flatMap (UploadRun.hashed cr px))

end

section
variable {cr : Crates} {px : Prost} {us : List UploadRun}

/-- A CID of an upload has the hash of data that was hashed. -/
theorem hash_of_mem_blocks {u : UploadRun} {b : Block} (hb : b ∈ u.blocks cr px) :
    b.data ∈ u.hashed cr px ∧ b.cid.hash.digest = cr.sha256 b.data := by
  rcases List.mem_append.1 hb with hb | hb
  · obtain ⟨d, hd, rfl⟩ := List.mem_map.1 hb
    exact ⟨List.mem_append_left _ (List.mem_append_left _ hd), rfl⟩
  · rcases List.mem_cons.1 hb with rfl | hb
    · exact ⟨List.mem_append_left _ (List.mem_append_right _ List.mem_cons_self), rfl⟩
    · rw [List.mem_singleton.1 hb]
      exact ⟨List.mem_append_right _ List.mem_cons_self, rfl⟩

theorem consistent_blocks (hcf : CollisionFree cr px us) :
    Consistent fun b => ∃ u ∈ us, b ∈ u.blocks cr px := by
  rintro a b ⟨u, hu, ha⟩ ⟨v, hv, hb⟩ hcid
  obtain ⟨hdata, hhash⟩ := hash_of_mem_blocks ha
  obtain ⟨hdata', hhash'⟩ := hash_of_mem_blocks hb
  have heq : a.data = b.data := hcf _ (List.mem_flatMap.2 ⟨u, hu, hdata⟩) _
    (List.mem_flatMap.2 ⟨v, hv, hdata'⟩) (by rw [← hhash, ← hhash', hcid])
  cases a
  cases b
  cases hcid
  cases heq
  rfl

/-- Data blocks with the same digests have the same CIDs. -/
theorem bodyCids_of_digests {n n' : Nat} {body body' : Bytes}
    (h : Tree.digests (bodyCids cr n body) = Tree.digests (bodyCids cr n' body')) :
    bodyCids cr n body = bodyCids cr n' body' := by
  have hcids : ∀ (n : Nat) (body : Bytes), bodyCids cr n body =
      (Tree.digests (bodyCids cr n body)).map
        fun d => Cid.newV1 CidBlake3.archivistBlockCodec ⟨CidBlake3.sha2256Code, d⟩ := by
    intro n body
    simp only [Tree.digests, bodyCids, List.map_map]
    rfl
  rw [hcids n body, hcids n' body', h]

/-- **The CID of the tree tells its leaves.** -/
theorem bodyCids_of_tree (hcr : cr.Standard) (hcf : CollisionFree cr px us) {u v : UploadRun}
    (hu : u ∈ us) (hv : v ∈ us) (hpu : 0 < u.cfg.blockSize) (hpv : 0 < v.cfg.blockSize)
    (hneu : u.body ≠ []) (hnev : v.body ≠ [])
    (h : (bodyManifest cr u.cfg.blockSize u.body).treeCid =
      (bodyManifest cr v.cfg.blockSize v.body).treeCid) :
    bodyCids cr u.cfg.blockSize u.body = bodyCids cr v.cfg.blockSize v.body := by
  have hne : ∀ w : UploadRun, 0 < w.cfg.blockSize → w.body ≠ [] →
      Tree.digests (bodyCids cr w.cfg.blockSize w.body) ≠ [] := by
    intro w hp hne h0
    have hcut := List.map_eq_nil_iff.1 (List.map_eq_nil_iff.1 h0)
    have hflat := flatten_cut hp w.body
    rw [hcut] at hflat
    exact hne hflat.symm
  have h32 : ∀ w : UploadRun, ∀ d ∈ Tree.digests (bodyCids cr w.cfg.blockSize w.body),
      d.length = 32 := by
    intro w d hd
    obtain ⟨c, hc, rfl⟩ := List.mem_map.1 hd
    obtain ⟨x, -, rfl⟩ := List.mem_map.1 hc
    exact hcr.sha256_length x
  have hmem : ∀ w ∈ us, ∀ x ∈ Tree.treeInputs cr.sha256
      (Tree.digests (bodyCids cr w.cfg.blockSize w.body)),
      x ∈ us.flatMap (UploadRun.hashed cr px) := fun w hw x hx =>
    List.mem_flatMap.2 ⟨w, hw, List.mem_append_right _ (List.mem_cons_of_mem _ hx)⟩
  have hroot : Tree.root cr.sha256 (Tree.digests (bodyCids cr u.cfg.blockSize u.body)) =
      Tree.root cr.sha256 (Tree.digests (bodyCids cr v.cfg.blockSize v.body)) :=
    congrArg (fun c : Cid => c.hash.digest) h
  refine bodyCids_of_digests (Tree.eq_of_rootLayer hcr.sha256_length (hne u hpu hneu)
    (hne v hpv hnev) (h32 u) (h32 v)
    (fun x hx y hy => hcf x (hmem u hu x hx) y (hmem v hv y hy)) ?_)
  rw [Tree.rootLayer_eq cr.sha256 (hne u hpu hneu), Tree.rootLayer_eq cr.sha256 (hne v hpv hnev),
    Tree.layer_depth cr.sha256 (hne u hpu hneu), Tree.layer_depth cr.sha256 (hne v hpv hnev), hroot]

end

end Api
