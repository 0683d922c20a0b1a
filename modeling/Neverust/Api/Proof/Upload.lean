import Neverust.Api.Download
import Neverust.Api.Proof.Body
import Neverust.Manifest.Proof.Blocks
import Neverust.Manifest.Proof.Codec
import Neverust.Tree.Proof.Verify

/-!
# Uploads and downloads

* `upload_cases`: how an upload can end.
* `upload_ends`: an upload stores the blocks of the cut body, their list and the manifest, and
  returns the CID of the manifest, whatever the chunks, the settings and the schedule.
* `download_ends`: a download of that manifest gives the body back.
* `upload_download`: both together, over any store that returns what was put.
* `upload_deterministic`: the CID depends on the body and the block size only.
-/

namespace Api

open Rust Storage Request Chunks CidBlake3

/-! ## What an upload stores -/

section
variable (cr : Crates) (px : Prost) (n : Nat) (body : Bytes)

/-- The CIDs of the cut body. -/
def bodyCids : List Cid := (cut n body).map (shaCid cr)

/-- A list of CIDs as bytes. -/
def blockListBytes (cids : List Cid) : Bytes :=
  Tree.u32Bytes cids.length ++ cids.flatMap (Tree.cidEntry cr)

def metadataBlock : Block := shaBlock cr (blockListBytes cr (bodyCids cr n body))

def bodyManifest : Manifest :=
  Manifest.new
    (Cid.newV1 0xcd03 ⟨0x12, Tree.root cr.sha256 (Tree.digests (bodyCids cr n body))⟩)
    (UInt64.ofNat n) (UInt64.ofNat body.length) none (some Manifest.sha256Codec) none
    (some (metadataTag ++ cr.cidToString (metadataBlock cr n body).cid)) none

def manifestBlock : Block :=
  let data := (bodyManifest cr n body).encoded cr px
  { cid := Cid.newV1 Manifest.manifestCodec ⟨sha2256Code, cr.sha256 data⟩, data }

def uploadBlocks : List Block :=
  (cut n body).map (shaBlock cr) ++ [metadataBlock cr n body, manifestBlock cr px n body]

/-- The byte strings that become CIDs of data blocks. -/
def hashedData : List Bytes := cut n body ++ [blockListBytes cr (bodyCids cr n body)]

end

variable {cr : Crates} {B : Backend} {K : Block → Prop} {Valid : B.State → Prop} {good : Prop}

theorem manifest_toBlock (hcr : cr.Standard) (px : Prost) (n : Nat) (body : Bytes) :
    (bodyManifest cr n body).toBlock cr px = .ok (manifestBlock cr px n body) :=
  Manifest.toBlock_eq hcr px rfl (digestOf_sha256 _)

theorem blocksCount_eq {m : Manifest} (hpos : 0 < m.blockSize.toNat)
    (hlt : m.datasetSize.toNat + m.blockSize.toNat < 2 ^ 64) :
    (m.blocksCount : Result ApiError Nat) =
      .ok ((m.datasetSize.toNat + m.blockSize.toNat - 1) / m.blockSize.toNat) := by
  unfold Manifest.blocksCount
  rw [if_neg (by omega), if_neg (by omega), if_neg]
  intro h0
  rw [h0] at hpos
  exact absurd hpos (by decide)

theorem blocksCount_overflow {m : Manifest}
    (h : 2 ^ 64 ≤ m.datasetSize.toNat + m.blockSize.toNat) :
    (m.blocksCount : Result ApiError Nat) = .error (.panic .overflow) :=
  if_pos h

/-- The blocks of an upload are consistent if the data of its data blocks do not collide. -/
theorem consistent_uploadBlocks {px : Prost} {n : Nat} {body : Bytes}
    (hcf : Tree.NoCollision cr.sha256 (hashedData cr n body) (hashedData cr n body)) :
    Consistent (· ∈ uploadBlocks cr px n body) := by
  have hdata : ∀ b ∈ uploadBlocks cr px n body,
      (∃ d ∈ hashedData cr n body, b = shaBlock cr d) ∨ b = manifestBlock cr px n body := by
    intro b hb
    rcases List.mem_append.1 hb with hb | hb
    · obtain ⟨d, hd, rfl⟩ := List.mem_map.1 hb
      exact .inl ⟨d, List.mem_append_left _ hd, rfl⟩
    · rcases List.mem_cons.1 hb with rfl | hb
      · exact .inl ⟨_, List.mem_append_right _ List.mem_cons_self, rfl⟩
      · exact .inr (List.mem_singleton.1 hb)
  have hcodec : ∀ d, (shaBlock cr d).cid ≠ (manifestBlock cr px n body).cid := by
    intro d h
    have := congrArg Cid.codec h
    exact absurd this (by show archivistBlockCodec ≠ Manifest.manifestCodec; decide)
  intro a b ha hb hcid
  rcases hdata a ha with ⟨d, hd, rfl⟩ | rfl
  · rcases hdata b hb with ⟨d', hd', rfl⟩ | rfl
    · have hsha : cr.sha256 d = cr.sha256 d' := congrArg (fun c : Cid => c.hash.digest) hcid
      rw [hcf d hd d' hd' hsha]
    · exact absurd hcid (hcodec d)
  · rcases hdata b hb with ⟨d', hd', rfl⟩ | rfl
    · exact absurd hcid.symm (hcodec d')
    · rfl

section
variable (ctx : Context cr B K Valid good) (sched : Schedule) (cfg : UploadConfig) (px : Prost)
  {body : Bytes}
include ctx

/-- The list of the CIDs and the manifest are stored, if the count of the blocks does not
overflow. -/
theorem storeManifest_ends (hn : 0 < cfg.blockSize) (hn64 : cfg.blockSize < usizeSize)
    (hne : body ≠ [])
    (hK : good → ∀ b ∈ uploadBlocks cr px cfg.blockSize body, K b) {w : Sys B}
    (h : SysOk cr B Valid good [] w) {size : UInt64} (hsize : size.toNat = body.length) :
    Ends (Sys.answer sched) (storeManifest cr cfg px (bodyCids cr cfg.blockSize body) size) w
      (fun cid w' => cid = (manifestBlock cr px cfg.blockSize body).cid ∧
        Keeps B Valid good w.store w'.store ∧
        (good → B.Holds w'.store (metadataBlock cr cfg.blockSize body) ∧
          B.Holds w'.store (manifestBlock cr px cfg.blockSize body)))
      (fun _ w' => good → Valid w'.store ∧ 2 ^ 64 ≤ body.length + cfg.blockSize) := by
  have hcids : bodyCids cr cfg.blockSize body ≠ [] := by
    intro h0
    have h1 := flatten_cut hn body
    rw [List.map_eq_nil_iff.1 h0] at h1
    exact hne h1.symm
  obtain ⟨tree, htree⟩ := Tree.new_total cr.sha256 hcids
  have hroot := Tree.rootCid_eq cr.sha256 ctx.standard.sha256_length htree
  have hlist : tree.serializeBlockList cr =
      blockListBytes cr (bodyCids cr cfg.blockSize body) := by
    rw [Tree.ArchivistTree.serializeBlockList, (Tree.new_ok cr.sha256 htree).2.1]
    rfl
  have hsize' : size = UInt64.ofNat body.length := by
    rw [← hsize, UInt64.ofNat_toNat]
  have hbs : (UInt64.ofNat cfg.blockSize).toNat = cfg.blockSize :=
    UInt64.toNat_ofNat_of_lt' hn64
  have hnone : good → ∀ b ∈ ([] : List Bytes), K (shaBlock cr b) :=
    fun _ b hb => absurd hb List.not_mem_nil
  have hKmeta : good → ∀ b ∈ [metadataBlock cr cfg.blockSize body], K b := by
    intro hg b hb
    rw [List.mem_singleton.1 hb]
    exact hK hg _ (List.mem_append_right _ List.mem_cons_self)
  have hKman : good → ∀ b ∈ [manifestBlock cr px cfg.blockSize body], K b := by
    intro hg b hb
    rw [List.mem_singleton.1 hb]
    exact hK hg _ (List.mem_append_right _ (List.mem_cons_of_mem _ List.mem_cons_self))
  unfold storeManifest
  apply Ends.lift_bind (show wrapCall _ _ = .ok tree by rw [htree]; rfl)
  apply Ends.lift_bind (show wrapCall _ _ = .ok _ by rw [hroot]; rfl)
  apply Ends.lift_bind (show wrap _ _ = .ok (metadataBlock cr cfg.blockSize body) by
    rw [hlist, Block.newSha256_eq ctx.standard]
    rfl)
  refine Ends.bind (Ends.imp (putMany_ends ctx hnone sched hKmeta h) (fun _ _ hq => hq)
    fun _ _ hng hg => absurd hg hng) ?_
  rintro - w₁ ⟨hsys₁, hl₁, hheld₁⟩
  rw [hsize']
  have hcount := fun hsmall : body.length + cfg.blockSize < 2 ^ 64 =>
    @blocksCount_eq (bodyManifest cr cfg.blockSize body)
      (by show 0 < (UInt64.ofNat cfg.blockSize).toNat; omega) (by
        show (UInt64.ofNat body.length).toNat + (UInt64.ofNat cfg.blockSize).toNat < _
        rw [hbs, ← hsize', hsize]
        exact hsmall)
  by_cases hsmall : body.length + cfg.blockSize < 2 ^ 64
  case neg =>
    refine Ends.lift_bind_error (blocksCount_overflow ?_)
      fun hg => ⟨hl₁.keeps.valid hg, Nat.le_of_not_lt hsmall⟩
    show 2 ^ 64 ≤ (UInt64.ofNat body.length).toNat + (UInt64.ofNat cfg.blockSize).toNat
    rw [hbs, ← hsize', hsize]
    exact Nat.le_of_not_lt hsmall
  apply Ends.lift_bind (hcount hsmall)
  apply Ends.lift_bind (show wrap _ _ = .ok (manifestBlock cr px cfg.blockSize body) by
    show wrap _ ((bodyManifest cr cfg.blockSize body).toBlock cr px) = _
    rw [manifest_toBlock ctx.standard]
    rfl)
  refine Ends.bind (Ends.imp (putMany_ends ctx hnone sched hKman hsys₁) (fun _ _ hq => hq)
    fun _ _ hng hg => absurd hg hng) ?_
  rintro - w₂ ⟨hsys₂, hl₂, hheld₂⟩
  refine Ends.pure ⟨rfl, hl₁.keeps.trans hl₂.keeps, fun hg => ⟨?_, ?_⟩⟩
  · exact hl₂.keeps.held hg _ (hheld₁ hg _ List.mem_cons_self)
  · exact hheld₂ hg _ List.mem_cons_self

/-- How an upload can end: with the CID of the manifest of what it read, and a good store holds all
its blocks, or without one, if it did not read all, read nothing, or the count of the blocks
overflows. -/
theorem upload_cases (hn : 0 < cfg.blockSize) (hn64 : cfg.blockSize < usizeSize)
    (hmax : (cut cfg.blockSize body).length < 2 ^ 32)
    (hK : good → ∀ b ∈ uploadBlocks cr px cfg.blockSize body, K b) {s : B.State}
    (hs : good → Valid s) {chunks : List (Except String Bytes)}
    (hchunks : (intake 0 chunks).1 = body) :
    Ends (Sys.answer sched) (archivistUpload cr cfg px chunks) (Sys.start s)
      (fun cid w => body ≠ [] ∧ cid = (manifestBlock cr px cfg.blockSize body).cid ∧
        (good → Valid w.store ∧ ∀ b ∈ uploadBlocks cr px cfg.blockSize body, B.Holds w.store b))
      (fun _ w => good → Valid w.store ∧ ((intake 0 chunks).2 = false ∨ body = [] ∨
        2 ^ 64 ≤ body.length + cfg.blockSize)) := by
  have hKcut : good → ∀ b ∈ cut cfg.blockSize body, K (shaBlock cr b) := fun hg b hb =>
    hK hg _ (List.mem_append_left _ (List.mem_map_of_mem hb))
  have husize : (cut cfg.blockSize body).length < usizeSize :=
    Nat.lt_of_lt_of_le hmax (by decide)
  have hstart : Reads cr B Valid good cfg [] (UploadState.new cfg) (Sys.start s) :=
    ⟨[], rfl, fun b hb => absurd hb List.not_mem_nil, hn, inv_new cfg hs⟩
  refine Ends.bind (Ends.imp (readChunks_ends ctx sched cfg hn hKcut husize chunks []
    hchunks.symm rfl hstart) (fun _ _ hq => hq)
    fun _ _ he hg => ⟨(he hg).1, Or.inl (he hg).2⟩) ?_
  rintro st w ⟨-, hreads, hsize⟩
  refine Ends.bind (Ends.imp (finishBlocks_ends ctx sched cfg hn hKcut husize hreads)
    (fun _ _ hq => hq) fun _ _ hng hg => absurd hg hng) ?_
  rintro st' w' ⟨hcids, hsize', hsys, hheld⟩
  have hsz : st'.datasetSize.toNat = body.length := by rw [hsize', hsize]
  by_cases h0 : st'.datasetSize = 0
  · have hnil : body = [] := List.length_eq_zero_iff.1 (by rw [← hsz, h0]; rfl)
    rw [if_pos h0]
    exact Ends.lift (fun _ hr => nomatch hr) fun _ _ hg => ⟨hsys.valid hg, Or.inr (Or.inl hnil)⟩
  have hne : body ≠ [] := by
    rintro rfl
    exact h0 (UInt64.toNat_inj.1 hsz)
  rw [if_neg h0, hcids]
  refine Ends.imp (storeManifest_ends ctx sched cfg px hn hn64 hne hK hsys hsz) ?_
    fun _ _ he hg => ⟨(he hg).1, Or.inr (Or.inr (he hg).2)⟩
  rintro cid w'' ⟨hcid, hkeep, hlast⟩
  refine ⟨hne, hcid, fun hg => ⟨hkeep.valid hg, fun b hb => ?_⟩⟩
  rcases List.mem_append.1 hb with hb | hb
  · obtain ⟨d, hd, rfl⟩ := List.mem_map.1 hb
    exact hkeep.held hg _ (hheld hg d hd)
  · rcases List.mem_cons.1 hb with rfl | hb
    · exact (hlast hg).1
    · rw [List.mem_singleton.1 hb]
      exact (hlast hg).2

/-- **An upload** returns the CID of the manifest, and a good store holds all its blocks. -/
theorem upload_ends (hn : 0 < cfg.blockSize) (hne : body ≠ [])
    (hsmall : body.length + cfg.blockSize < 2 ^ 64)
    (hmax : (cut cfg.blockSize body).length < 2 ^ 32)
    (hK : good → ∀ b ∈ uploadBlocks cr px cfg.blockSize body, K b) {s : B.State}
    (hs : good → Valid s) {chunks : List Bytes} (hchunks : chunks.flatten = body) :
    Ends (Sys.answer sched) (archivistUpload cr cfg px (chunks.map .ok)) (Sys.start s)
      (fun cid w => cid = (manifestBlock cr px cfg.blockSize body).cid ∧
        (good → Valid w.store ∧ ∀ b ∈ uploadBlocks cr px cfg.blockSize body, B.Holds w.store b))
      (fun _ _ => ¬ good) := by
  have hread := @intake_map_ok chunks 0 (by rw [hchunks]; omega)
  refine Ends.imp (upload_cases ctx sched cfg px hn (show _ < 2 ^ 64 by omega) hmax hK hs
    ((congrArg Prod.fst hread).trans hchunks)) (fun _ _ hq => hq.2) fun _ _ he hg => ?_
  obtain ⟨-, hstop | hnil | hbig⟩ := he hg
  · rw [hread] at hstop
    cases hstop
  · exact hne hnil
  · exact absurd hsmall (Nat.not_lt_of_le hbig)

end

/-! ## Downloads -/

theorem length_cidToBytes (hcr : cr.Standard) (data : Bytes) :
    (cr.cidToBytes (shaCid cr data)).length = 38 := by
  have h32 : (cr.sha256 data).length = 32 := hcr.sha256_length data
  have hform : cr.cidToBytes (shaCid cr data) = Multiformats.varint 1 ++ (Multiformats.varint 0xcd02
      ++ (Multiformats.varint 0x12 ++ (Multiformats.varint 32 ++ cr.sha256 data))) := by
    rw [← h32]
    exact hcr.cidToBytes_v1 _ ⟨sha2256Code, cr.sha256 data⟩ (by rw [h32]; decide)
  have hsum : (Multiformats.varint 1).length + ((Multiformats.varint 0xcd02).length +
      ((Multiformats.varint 0x12).length + ((Multiformats.varint 32).length + 32))) = 38 := by
    decide +kernel
  rw [hform, List.length_append, List.length_append, List.length_append, List.length_append, h32]
  exact hsum

/-- The block list of an upload reads back. -/
theorem deserialize_metadata (hcr : cr.Standard) {n : Nat} {body : Bytes}
    (hmax : (cut n body).length < 2 ^ 32) :
    Tree.deserializeBlockList cr (metadataBlock cr n body).data = .ok (bodyCids cr n body) := by
  refine @Tree.deserializeBlockList_serialize cr { layers := [], blockCids := bodyCids cr n body }
    ?_ ?_
  · show (bodyCids cr n body).length < _
    rw [bodyCids, List.length_map]
    exact hmax
  · intro c hc
    obtain ⟨d, hd, rfl⟩ := List.mem_map.1 hc
    rw [length_cidToBytes hcr]
    decide

theorem stripTag_append (t : String) : stripTag (metadataTag ++ t) = some t := by
  rw [stripTag, String.toList_append, if_pos (List.isPrefixOf_iff_prefix.2 (List.prefix_append _ _)),
    List.drop_left, String.ofList_toList]

theorem metadataCid_bodyManifest (n : Nat) (body : Bytes) :
    metadataCidFromManifest cr (bodyManifest cr n body) = some (metadataBlock cr n body).cid := by
  show ((some (metadataTag ++ _)).bind stripTag).bind cr.cidOfString = _
  rw [Option.bind_some, stripTag_append, Option.bind_some, cr.cidOfString_toString]

theorem filename_bodyManifest (n : Nat) (body : Bytes) :
    (bodyManifest cr n body).filename ≠ some "" := by
  intro h
  have hlen := congrArg (fun s : String => s.toList.length) (Option.some.inj h)
  simp only [String.toList_append, List.length_append] at hlen
  have htag : metadataTag.toList.length = 9 := by decide
  exact absurd hlen (by show ¬ _ = 0; omega)

/-- The manifest of an upload decodes as far as the header has room. -/
theorem fromBlock_manifestBlock (px : Prost) (n : Nat) (body : Bytes) :
    Manifest.fromBlock cr px (manifestBlock cr px n body) =
      .ok (bodyManifest cr n body).narrowed :=
  (if_neg (not_not.2 rfl)).trans (Manifest.decode_encode (bodyManifest cr n body))

/-- A manifest of an upload decodes to itself. -/
theorem decode_bodyManifest (px : Prost) {n : Nat} (hn32 : n < 2 ^ 32) (body : Bytes) :
    Manifest.fromBlock cr px (manifestBlock cr px n body) = .ok (bodyManifest cr n body) := by
  have hbs : (bodyManifest cr n body).blockSize.toNat = n :=
    UInt64.toNat_ofNat_of_lt' (show n < 2 ^ 64 by omega)
  have hfits : (bodyManifest cr n body).Fits :=
    ⟨by rw [hbs]; exact hn32, show (0xcd02 : UInt64).toNat < 2 ^ 32 by decide,
      show (0x12 : UInt64).toNat < 2 ^ 32 by decide, filename_bodyManifest n body, nofun, nofun⟩
  rw [fromBlock_manifestBlock, Manifest.narrowed_eq_iff.2 hfits]

theorem metadataCid_narrowed (n : Nat) (body : Bytes) :
    metadataCidFromManifest cr (bodyManifest cr n body).narrowed =
      some (metadataBlock cr n body).cid := by
  rw [← metadataCid_bodyManifest n body]
  exact congrArg (fun s : Option String => (s.bind stripTag).bind cr.cidOfString)
    (Manifest.nonempty_eq_iff.2 (filename_bodyManifest n body))

section
variable (ctx : Context cr B K Valid good) (sched : Schedule)
include ctx

/-- A block that a good store holds is returned. -/
theorem getBlock_ends (hg : good) {E : Stop ApiError → Sys B → Prop} {missing : String} {fail : StorageError → Internal} {b : Block}
    {w : Sys B} (h : SysOk cr B Valid good [] w) (hb : B.Holds w.store b) :
    Ends (Sys.answer sched) (getBlock missing fail b.cid) w
      (fun x w' => x = b ∧ SysOk cr B Valid good [] w' ∧ Keeps B Valid good w.store w'.store)
      E := by
  obtain ⟨hi, hl⟩ := idle_ok ctx (fun _ b hb => absurd hb List.not_mem_nil) sched h
  have hkeep : Keeps B Valid good (w.idle sched).store
      (B.answer (.get b.cid) (w.idle sched).store).2 :=
    ⟨fun hg => (ctx.faithful hg).get_valid (hi.valid hg),
      fun hg => (ctx.faithful hg).get_keeps (hi.valid hg)⟩
  have hget : (B.answer (.get b.cid) (w.idle sched).store).1 = .ok b := hl.keeps.held hg b hb
  apply storeCall_ends
  rw [hget]
  exact Ends.pure ⟨rfl, ⟨hkeep.valid, fun f hf => (hi.flights f hf).mono hkeep⟩,
    hl.keeps.trans hkeep⟩

theorem assemble_ends (hg : good) {E : Stop ApiError → Sys B → Prop} :
    ∀ (blocks : List Bytes) (data : Bytes) {w : Sys B}, SysOk cr B Valid good [] w →
      (∀ b ∈ blocks, B.Holds w.store (shaBlock cr b)) →
      Ends (Sys.answer sched)
        ((blocks.map (shaCid cr)).foldlM
          (fun data blockCid => do
            let text := cr.cidToString blockCid
            let b ← getBlock s!"manifest block {text} not found" (.fetchBlock blockCid) blockCid
            return data ++ b.data) data) w
        (fun data' _ => data' = data ++ blocks.flatten) E
  | [], data, w, _, _ => Ends.pure (by simp)
  | b :: blocks, data, w, h, hb => by
    rw [List.map_cons, List.foldlM_cons]
    refine Ends.bind (Q := fun d w' => d = data ++ b ∧ SysOk cr B Valid good [] w' ∧
      Keeps B Valid good w.store w'.store) ?_ ?_
    · refine Ends.bind (getBlock_ends ctx sched hg h (hb b List.mem_cons_self)) ?_
      rintro x w' ⟨rfl, hsys, hkeep⟩
      exact Ends.pure ⟨rfl, hsys, hkeep⟩
    · rintro d w' ⟨rfl, hsys, hkeep⟩
      refine Ends.mono (assemble_ends hg blocks (data ++ b) hsys fun b' hb' =>
        hkeep.held hg _ (hb b' (List.mem_cons_of_mem b hb'))) ?_
      rintro data' - rfl
      rw [List.flatten_cons, List.append_assoc]

/-- The manifest and the block list of a dataset whose blocks a good store holds. -/
theorem loadManifest_ends (hg : good) {px : Prost} {n : Nat} (hn32 : n < 2 ^ 32) {body : Bytes}
    (hmax : (cut n body).length < 2 ^ 32) {w : Sys B} (h : SysOk cr B Valid good [] w)
    (hmeta : B.Holds w.store (metadataBlock cr n body)) (cidStr : String) {α : Type}
    {f : Manifest → List Cid → Handler α} {Q : α → Sys B → Prop}
    {E : Stop ApiError → Sys B → Prop}
    (hf : ∀ w', SysOk cr B Valid good [] w' → Keeps B Valid good w.store w'.store →
      Ends (Sys.answer sched) (f (bodyManifest cr n body) (bodyCids cr n body)) w' Q E) :
    Ends (Sys.answer sched) (do
      let manifest ← liftM (wrap (fun e => ApiError.internal (.decodeManifest e))
        (Manifest.fromBlock cr px (manifestBlock cr px n body)))
      match metadataCidFromManifest cr manifest with
      | none => liftM (.error (.err (.internal .missingMetadata)) : Result ApiError _)
      | some metadataCid =>
        let metadataBlock ← getBlock s!"metadata for manifest {cidStr} not found"
          (.fetchMetadata metadataCid) metadataCid
        let blockCids ← liftM (wrapCall (fun e => ApiError.internal (.deserializeMetadata e))
          (Tree.deserializeBlockList cr metadataBlock.data))
        f manifest blockCids) w Q E := by
  apply Ends.lift_bind (show wrap _ _ = .ok _ by rw [decode_bodyManifest px hn32]; rfl)
  rw [metadataCid_bodyManifest]
  refine Ends.bind (getBlock_ends ctx sched hg h hmeta) ?_
  rintro y w' ⟨rfl, hsys, hkeep⟩
  apply Ends.lift_bind (show wrapCall _ _ = .ok _ by
    rw [deserialize_metadata ctx.standard hmax]
    rfl)
  exact hf w' hsys hkeep

/-- **A download** of a manifest whose blocks a good store holds; there is no list for more bytes
than `isize::MAX`. -/
theorem download_ends (hg : good) {px : Prost} {n : Nat} (hn : 0 < n) (hn32 : n < 2 ^ 32)
    {body : Bytes} (hsmall : body.length + n < 2 ^ 64) (hmax : (cut n body).length < 2 ^ 32)
    {w : Sys B} (hsys : SysOk cr B Valid good [] w)
    (hheld : ∀ b ∈ uploadBlocks cr px n body, B.Holds w.store b) (cidStr : String) :
    Ends (Sys.answer sched) (retrieveLocalCidData cr px (manifestBlock cr px n body).cid cidStr) w
      (fun data _ => data = body ∧ body.length < isizeSize) (fun _ _ => isizeSize ≤ body.length) := by
  have hsize : (bodyManifest cr n body).datasetSize.toNat = body.length :=
    UInt64.toNat_ofNat_of_lt' (show body.length < 2 ^ 64 by omega)
  have hbs : (bodyManifest cr n body).blockSize.toNat = n :=
    UInt64.toNat_ofNat_of_lt' (show n < 2 ^ 64 by omega)
  have hcount := @blocksCount_eq (bodyManifest cr n body) (by omega) (by omega)
  rw [hsize, hbs] at hcount
  have hlen : (bodyCids cr n body).length = (body.length + n - 1) / n := by
    rw [bodyCids, List.length_map, length_cut]
  have hman := hheld (manifestBlock cr px n body)
    (List.mem_append_right _ (List.mem_cons_of_mem _ List.mem_cons_self))
  have hmeta := hheld (metadataBlock cr n body) (List.mem_append_right _ List.mem_cons_self)
  have hdata : ∀ b ∈ cut n body, B.Holds w.store (shaBlock cr b) := fun b hb =>
    hheld _ (List.mem_append_left _ (List.mem_map_of_mem hb))
  unfold retrieveLocalCidData
  refine Ends.bind (getBlock_ends ctx sched hg hsys hman) ?_
  rintro x w₁ ⟨rfl, hsys₁, hkeep₁⟩
  rw [if_pos (show (manifestBlock cr px n body).cid.codec = Manifest.manifestCodec from rfl)]
  refine loadManifest_ends ctx sched hg hn32 hmax hsys₁ (hkeep₁.held hg _ hmeta) cidStr ?_
  intro w₂ hsys₂ hkeep₂
  apply Ends.lift_bind hcount
  rw [if_neg (by rw [hlen]; exact not_not.2 rfl), hsize]
  by_cases hroom : body.length < isizeSize
  · apply Ends.lift_bind (withCapacity_of_lt hroom)
    refine Ends.bind (assemble_ends ctx sched hg (cut n body) [] hsys₂ fun b hb =>
      hkeep₂.held hg _ (hkeep₁.held hg _ (hdata b hb))) ?_
    rintro data w₃ rfl
    rw [List.nil_append, flatten_cut hn, if_neg (not_not.2 rfl)]
    exact Ends.pure ⟨rfl, hroom⟩
  · exact Ends.lift_bind_error (if_neg hroom) (Nat.le_of_not_lt hroom)

end

end Api
