import Neverust.Api.Proof.RangeHeader
import Neverust.Api.Proof.Roundtrip

/-!
# Range downloads

* `retrieveRange_ends`: over a store that holds the blocks of a dataset, a range of it is read block
  by block (`readPart_ends` is one block).
* `range_eq_slice`: a range of an uploaded dataset is that slice of the whole download.
* `downloads_answered`: a download of an uploaded dataset, with or without a range, is answered as
  its bytes would be if they were one block.
-/

namespace Api

open Rust Storage Request Chunks CidBlake3

variable {cr : Crates} {B : Backend} {K : Block → Prop} {Valid : B.State → Prop} {good : Prop}

section
variable (ctx : Context cr B K Valid good) (sched : Schedule)
include ctx

section
variable {n start stop : Nat} (hn : 0 < n) {body : Bytes} (hsmall : body.length < 2 ^ 64)
  (hlt : start < stop) (hstop : stop ≤ body.length)
include hn hsmall hlt hstop

/-- One block: the range read so far grows by the block's part of it. -/
theorem readPart_ends (hg : good) {k : Nat} (hfirst : start / n ≤ k) (hlast : k ≤ (stop - 1) / n)
    {E : Stop ApiError → Sys B → Prop} {w : Sys B} (h : SysOk cr B Valid good [] w)
    (hheld : ∀ b ∈ cut n body, B.Holds w.store (shaBlock cr b)) :
    Ends (Sys.answer sched)
      (readPart cr n (start / n) ((stop - 1) / n) start stop (bodyCids cr n body)
        (segment body start (reached n start stop k)) k) w
      (fun data w' => data = segment body start (reached n start stop (k + 1)) ∧
        SysOk cr B Valid good [] w' ∧ Keeps B Valid good w.store w'.store) E := by
  have hk := lt_length_cut hn hlt hstop hlast
  obtain ⟨hle, hmono, hmax, hpart⟩ := segment_piece hn hlt hstop hfirst hlast hk
  have hmul : k * n < usizeSize := by
    have := (Nat.le_div_iff_mul_le hn).1 hlast
    have : usizeSize = 2 ^ 64 := rfl
    omega
  have hcid : (index (bodyCids cr n body) k : Result ApiError Cid) =
      .ok (shaBlock cr (cut n body)[k]).cid := by
    have hk' : k < (bodyCids cr n body).length := by
      rw [bodyCids, List.length_map]
      exact hk
    rw [index_of_lt hk']
    simp only [bodyCids, List.getElem_map]
    rfl
  have hfrom : (if k = start / n then usizeSub start (k * n) else .ok 0 : Result ApiError Nat) =
      .ok (reached n start stop k - k * n) := by
    split
    · rename_i heq
      obtain ⟨hstart, hreach⟩ := reached_of_eq (n := n) hlt heq
      rw [usizeSub_of_le hstart, hreach]
    · rename_i hne
      rw [reached_of_ne hn hfirst hlast hne, Nat.sub_self]
  have hto : (if k = (stop - 1) / n then do
        let m ← usizeSub stop (k * n)
        return min m (shaBlock cr (cut n body)[k]).data.length
      else .ok (shaBlock cr (cut n body)[k]).data.length : Result ApiError Nat) =
      .ok (reached n start stop (k + 1) - k * n) := by
    have hlen : (cut n body)[k].length = min ((k + 1) * n) body.length - k * n := by
      rw [piece_eq_segment, length_segment body (Nat.min_le_right _ _)]
    show (if k = (stop - 1) / n then do
        let m ← usizeSub stop (k * n)
        return min m (cut n body)[k].length
      else .ok (cut n body)[k].length : Result ApiError Nat) = _
    split
    · rename_i heq
      obtain ⟨hbelow, hreach⟩ := @reached_succ_of_eq n start stop _ hn hlt heq
      rw [usizeSub_of_le hbelow, hreach]
      show Except.ok (min (stop - k * n) _) = _
      rw [Nat.min_eq_left (by omega)]
    · rename_i hne
      obtain ⟨hreach, hbelow⟩ := reached_succ_of_ne hn hfirst hlast hne
      rw [hreach, hlen, Nat.min_eq_left (by omega)]
  unfold readPart
  apply Ends.lift_bind hcid
  refine Ends.bind (getBlock_ends ctx sched hg h (hheld _ (List.getElem_mem hk))) ?_
  rintro x w' ⟨rfl, hsys, hkeep⟩
  apply Ends.lift_bind (usizeMul_of_lt hmul)
  apply Ends.lift_bind hfrom
  apply Ends.lift_bind hto
  apply Ends.lift_bind (range_of_le (by omega) (by
    show _ ≤ (cut n body)[k].length
    omega))
  refine Ends.pure ⟨?_, hsys, hkeep⟩
  show _ ++ segment (cut n body)[k] _ _ = _
  have hbelow : reached n start stop k ≤ body.length := by
    unfold reached
    omega
  rw [hpart, segment_append body (le_reached n start stop k) hmono hbelow]

/-- The blocks from the `k`-th on. -/
theorem readParts_ends (hg : good) {E : Stop ApiError → Sys B → Prop} :
    ∀ (count : Nat) {k : Nat}, start / n ≤ k → k + count = (stop - 1) / n + 1 →
      ∀ {w : Sys B}, SysOk cr B Valid good [] w →
      (∀ b ∈ cut n body, B.Holds w.store (shaBlock cr b)) →
      Ends (Sys.answer sched)
        ((List.range' k count).foldlM
          (readPart cr n (start / n) ((stop - 1) / n) start stop (bodyCids cr n body))
          (segment body start (reached n start stop k))) w
        (fun data _ => data = segment body start stop) E
  | 0, k, hfirst, hk, w, _, _ => by
    obtain ⟨-, hreach⟩ := @reached_succ_of_eq n start stop _ hn hlt rfl
    refine Ends.pure ?_
    rw [show k = (stop - 1) / n + 1 by omega, hreach]
  | count + 1, k, hfirst, hk, w, h, hheld => by
    rw [List.range'_succ, List.foldlM_cons]
    refine Ends.bind (readPart_ends ctx sched hn hsmall hlt hstop hg hfirst (by omega) h hheld) ?_
    rintro data w' ⟨rfl, hsys, hkeep⟩
    exact readParts_ends hg count (by omega) (by omega) hsys fun b hb =>
      hkeep.held hg _ (hheld b hb)

/-- **A range** of a dataset whose blocks a good store holds. -/
theorem retrieveRange_ends (hg : good) (hn64 : n < 2 ^ 64) (hroom : stop - start < isizeSize)
    {E : Stop ApiError → Sys B → Prop} {w : Sys B} (h : SysOk cr B Valid good [] w)
    (hheld : ∀ b ∈ cut n body, B.Holds w.store (shaBlock cr b)) :
    Ends (Sys.answer sched)
      (retrieveManifestRange cr (bodyManifest cr n body) (bodyCids cr n body) start stop) w
      (fun data _ => data = segment body start stop) E := by
  have hbs : (bodyManifest cr n body).blockSize.toNat = n := UInt64.toNat_ofNat_of_lt' hn64
  have hlast : (stop - 1) / n < (bodyCids cr n body).length := by
    rw [bodyCids, List.length_map]
    exact lt_length_cut hn hlt hstop (Nat.le_refl _)
  have hfirst : start / n ≤ (stop - 1) / n := Nat.div_le_div_right (by omega)
  have hreach := (reached_of_eq (n := n) hlt rfl).2
  unfold retrieveManifestRange
  rw [hbs]
  apply Ends.lift_bind (usizeDiv_of_pos hn)
  apply Ends.lift_bind (usizeSub_of_le (show 1 ≤ stop by omega))
  apply Ends.lift_bind (usizeDiv_of_pos hn)
  apply Ends.lift_bind (usizeSub_of_le (Nat.le_of_lt hlt))
  apply Ends.lift_bind (withCapacity_of_lt hroom)
  apply Ends.lift_bind (usizeSub_of_le (Nat.lt_of_le_of_lt (Nat.zero_le _) hlast))
  have hempty : ([] : Bytes) = segment body start (reached n start stop (start / n)) := by
    rw [hreach, segment_of_le body (Nat.le_refl _)]
  rw [hempty, Nat.min_eq_left (Nat.le_sub_one_of_lt hlast)]
  exact readParts_ends ctx sched hn hsmall hlt hstop hg _ (Nat.le_refl _)
    (Nat.add_sub_cancel' (Nat.le_succ_of_le hfirst)) h hheld

end

/-- The manifest and the block list of a dataset whose blocks a good store holds are read. -/
theorem loadManifestMetadata_ends (hg : good) {px : Prost} {n : Nat} (hn32 : n < 2 ^ 32)
    {body : Bytes} (hmax : (cut n body).length < 2 ^ 32) {E : Stop ApiError → Sys B → Prop}
    {w : Sys B} (hsys : SysOk cr B Valid good [] w)
    (hheld : ∀ b ∈ uploadBlocks cr px n body, B.Holds w.store b) (cidStr : String) :
    Ends (Sys.answer sched) (loadManifestMetadata cr px (manifestBlock cr px n body).cid cidStr) w
      (fun r w' => r = (bodyManifest cr n body, bodyCids cr n body) ∧
        SysOk cr B Valid good [] w' ∧ Keeps B Valid good w.store w'.store) E := by
  have hman := hheld (manifestBlock cr px n body)
    (List.mem_append_right _ (List.mem_cons_of_mem _ List.mem_cons_self))
  have hmeta := hheld (metadataBlock cr n body) (List.mem_append_right _ List.mem_cons_self)
  unfold loadManifestMetadata
  refine Ends.bind (getBlock_ends ctx sched hg hsys hman) ?_
  rintro x w₁ ⟨rfl, hsys₁, hkeep₁⟩
  refine loadManifest_ends ctx sched hg hn32 hmax hsys₁ (hkeep₁.held hg _ hmeta) cidStr ?_
  intro w₂ hsys₂ hkeep₂
  exact Ends.pure ⟨rfl, hsys₂, hkeep₁.trans hkeep₂⟩

end

/-! ## The answer to a download -/

/-- A range that the header names. -/
theorem buildRangeResponse_of_parse {rangeStr : String} {data : Bytes} {start stop : Nat}
    (h : (parseRangeHeader rangeStr data.length : Result ApiError _) = .ok (some (start, stop))) :
    buildRangeResponse (some rangeStr) data =
      .ok (.partialContent start (stop - 1) data.length (segment data start stop)) := by
  obtain ⟨hlt, hle⟩ := parse_bounds h
  rw [buildRangeResponse, h]
  simp only [bind, Except.bind, pure, Except.pure, range_of_le (Nat.le_of_lt hlt) hle,
    usizeSub_of_le (show 1 ≤ stop by omega)]
  rfl

section
variable (ctx : Context cr B K Valid good) (sched : Schedule)
include ctx

/-- **A download of a manifest** whose blocks a good store holds is answered from its bytes. -/
theorem downloadManifest_ends (hg : good) {px : Prost} {n : Nat} (hn : 0 < n) (hn32 : n < 2 ^ 32)
    {body : Bytes} (hsmall : body.length + n < 2 ^ 64) (hmax : (cut n body).length < 2 ^ 32)
    (hroom : body.length < isizeSize) {w : Sys B} (hsys : SysOk cr B Valid good [] w)
    (hheld : ∀ b ∈ uploadBlocks cr px n body, B.Holds w.store b) (cidStr : String)
    (range : Option String) :
    Ends (Sys.answer sched)
      (downloadManifest cr px (manifestBlock cr px n body).cid cidStr range) w
      (fun r _ => buildRangeResponse range body = .ok r)
      (fun e _ => buildRangeResponse range body = .error e) := by
  have hsize : (bodyManifest cr n body).datasetSize.toNat = body.length :=
    UInt64.toNat_ofNat_of_lt' (show body.length < 2 ^ 64 by omega)
  unfold downloadManifest
  refine Ends.bind (loadManifestMetadata_ends ctx sched hg hn32 hmax hsys hheld cidStr) ?_
  rintro r w' ⟨rfl, hsys', hkeep⟩
  have hheld' : ∀ b ∈ uploadBlocks cr px n body, B.Holds w'.store b := fun b hb =>
    hkeep.held hg b (hheld b hb)
  dsimp only
  rw [hsize]
  cases range with
  | none =>
    refine Ends.bind (Ends.imp (download_ends ctx sched hg hn hn32 hsmall hmax hsys' hheld' cidStr)
      (fun data _ h => h.1) fun _ _ h => absurd hroom (Nat.not_lt_of_le h)) ?_
    rintro data w'' rfl
    exact Ends.pure rfl
  | some rangeStr =>
    cases hparse : (parseRangeHeader rangeStr body.length : Result ApiError _) with
    | error e =>
      refine Ends.lift_bind_error hparse ?_
      rw [buildRangeResponse, hparse]
      rfl
    | ok found =>
      apply Ends.lift_bind hparse
      cases found with
      | none =>
        refine Ends.pure ?_
        rw [buildRangeResponse, hparse]
        rfl
      | some bounds =>
        obtain ⟨start, stop⟩ := bounds
        obtain ⟨hlt, hle⟩ := parse_bounds hparse
        refine Ends.bind (retrieveRange_ends ctx sched hn (by omega) hlt hle hg (by omega)
          (by omega) hsys' fun b hb =>
            hheld' _ (List.mem_append_left _ (List.mem_map_of_mem hb))) ?_
        rintro data w'' rfl
        apply Ends.lift_bind (usizeSub_of_le (show 1 ≤ stop by omega))
        exact Ends.pure (buildRangeResponse_of_parse hparse)

/-- A download of a block that is not a manifest. -/
theorem downloadBlock_ends (hg : good) {px : Prost} {b : Block}
    (hcodec : b.cid.codec ≠ Manifest.manifestCodec) {w : Sys B}
    (hsys : SysOk cr B Valid good [] w) (hb : B.Holds w.store b) (cidStr : String)
    (range : Option String) :
    Ends (Sys.answer sched) (archivistDownloadLocal cr px b.cid cidStr range) w
      (fun r _ => buildRangeResponse range b.data = .ok r)
      (fun e _ => buildRangeResponse range b.data = .error e) := by
  unfold archivistDownloadLocal retrieveLocalCidData
  rw [if_neg hcodec, Prog.bind_assoc]
  refine Ends.bind (getBlock_ends ctx sched hg hsys hb) ?_
  rintro x w' ⟨rfl, -, -⟩
  rw [if_neg hcodec]
  exact Ends.lift (fun _ h => h) fun _ h => h

end

/-- Fewer than `2 ^ 32` blocks of fewer than `2 ^ 32` bytes. -/
theorem length_of_blocks {n len : Nat} (hn : 0 < n) (hn32 : n < 2 ^ 32)
    (hblocks : (len + n - 1) / n < 2 ^ 32) : len + n < 2 ^ 64 := by
  have hlt := (Nat.div_lt_iff_lt_mul hn).1 hblocks
  omega

/-- **A range of an uploaded dataset is that slice of the whole download.** -/
theorem range_eq_slice (hcr : cr.Standard) (px : Prost) {B : Backend}
    {Valid : (Block → Prop) → B.State → Prop} (hB : B.ReturnsWhatWasPut Valid) (cfg : UploadConfig)
    (hn : 0 < cfg.blockSize) (hn32 : cfg.blockSize < 2 ^ 32) (chunks : List Bytes)
    (hne : chunks.flatten ≠ [])
    (hblocks : (chunks.flatten.length + cfg.blockSize - 1) / cfg.blockSize < 2 ^ 32)
    (hcf : Tree.NoCollision cr.sha256 (hashedData cr cfg.blockSize chunks.flatten)
      (hashedData cr cfg.blockSize chunks.flatten))
    {s : B.State} (hs : Valid (· ∈ uploadBlocks cr px cfg.blockSize chunks.flatten) s)
    (sched : Schedule) :
    ∃ cid w manifest blockCids,
      Handler.run (archivistUpload cr cfg px (chunks.map .ok)) sched s = (.ok cid, w) ∧
      manifest.datasetSize.toNat = chunks.flatten.length ∧
      ∀ (sched' : Schedule) (cidStr : String),
        (Handler.run (loadManifestMetadata cr px cid cidStr) sched' w.store).1 =
          .ok (manifest, blockCids) ∧
        (chunks.flatten.length < isizeSize →
          (Handler.run (retrieveLocalCidData cr px cid cidStr) sched' w.store).1 =
            .ok chunks.flatten) ∧
        ∀ data, (Handler.run (retrieveLocalCidData cr px cid cidStr) sched' w.store).1 = .ok data →
          ∀ start stop, start < stop → stop ≤ manifest.datasetSize.toNat →
            ∀ sched'' : Schedule,
              (Handler.run (retrieveManifestRange cr manifest blockCids start stop) sched''
                w.store).1 = .ok ((data.take stop).drop start) := by
  have hmax : (cut cfg.blockSize chunks.flatten).length < 2 ^ 32 := by rwa [length_cut]
  have hsmall := length_of_blocks hn hn32 hblocks
  have hcons := @consistent_uploadBlocks cr px _ _ hcf
  have ctx : Context cr B (· ∈ uploadBlocks cr px cfg.blockSize chunks.flatten)
      (Valid (· ∈ uploadBlocks cr px cfg.blockSize chunks.flatten)) True :=
    ⟨hcr, fun _ => hB _ hcons, fun _ => hcons⟩
  obtain ⟨cid, hok, rfl, hheld⟩ := Ends.exists_ok (upload_ends ctx sched cfg px hn hne hsmall
    hmax (fun _ b hb => hb) (fun _ => hs) rfl) fun _ _ h => h trivial
  obtain ⟨hvalid, hblk⟩ := hheld trivial
  have hsize : (bodyManifest cr cfg.blockSize chunks.flatten).datasetSize.toNat =
      chunks.flatten.length :=
    UInt64.toNat_ofNat_of_lt' (show chunks.flatten.length < 2 ^ 64 by omega)
  refine ⟨_, _, bodyManifest cr cfg.blockSize chunks.flatten, bodyCids cr cfg.blockSize
    chunks.flatten, Prod.ext hok rfl, hsize, fun sched' cidStr => ?_⟩
  have hsys : SysOk cr B (Valid (· ∈ uploadBlocks cr px cfg.blockSize chunks.flatten)) True []
      (Sys.start _) := SysOk.start fun _ => hvalid
  have hdown := download_ends ctx sched' trivial hn hn32 hsmall hmax hsys hblk cidStr
  refine ⟨?_, fun hroom => ?_, fun data hdata start stop hlt hstop sched'' => ?_⟩
  · obtain ⟨r, hr, rfl, -⟩ := Ends.exists_ok (loadManifestMetadata_ends ctx sched' trivial hn32 hmax
      hsys hblk cidStr) fun _ _ h => h
    exact hr
  · obtain ⟨data, hdata, rfl, -⟩ := Ends.exists_ok hdown fun _ _ => Nat.not_le_of_lt hroom
    exact hdata
  · obtain ⟨rfl, hroom⟩ := Ends.of_ok hdown hdata
    obtain ⟨r, hr, rfl⟩ := Ends.exists_ok (retrieveRange_ends ctx sched'' hn (by omega) hlt
      (hsize ▸ hstop) trivial (by omega) (by omega) hsys
      fun b hb => hblk _ (List.mem_append_left _ (List.mem_map_of_mem hb))) (fun _ _ h => h)
    exact hr

/-- Bytes 1 and 2 of a dataset of two blocks. -/
theorem range_eq_slice_sample :
    ∃ cid w manifest blockCids,
      Handler.run (B := RedbStore.backend .standard false)
        (archivistUpload .standard (sampleConfig false) .standard ([[1], [], [2, 3]].map .ok))
        sampleSchedule RedbStore.empty = (.ok cid, w) ∧
      (Handler.run (loadManifestMetadata .standard .standard cid "dataset") sampleSchedule
        w.store).1 = .ok (manifest, blockCids) ∧
      (Handler.run (retrieveManifestRange .standard manifest blockCids 1 3) sampleSchedule
        w.store).1 = .ok [2, 3] := by
  obtain ⟨cid, w, manifest, blockCids, hok, hsize, hall⟩ := range_eq_slice
    Crates.standard_standard .standard (@RedbStore.returnsWhatWasPut .standard)
    (sampleConfig false) (by decide) (by decide) [[1], [], [2, 3]] (by decide) (by decide)
    noCollision_hashedData (RedbStore.agrees_empty _) sampleSchedule
  obtain ⟨hload, hdata, hrange⟩ := hall sampleSchedule "dataset"
  exact ⟨cid, w, manifest, blockCids, hok, hload,
    hrange _ (hdata (by decide)) 1 3 (by decide) (hsize ▸ by decide) sampleSchedule⟩

/-- **Downloads of an uploaded dataset** are answered from its bytes, with or without a range, and
those of its blocks from theirs. -/
theorem downloads_answered (hcr : cr.Standard) (px : Prost) {B : Backend}
    {Valid : (Block → Prop) → B.State → Prop} (hB : B.ReturnsWhatWasPut Valid) (cfg : UploadConfig)
    (hn : 0 < cfg.blockSize) (hn32 : cfg.blockSize < 2 ^ 32) (chunks : List Bytes)
    (hne : chunks.flatten ≠ []) (hroom : chunks.flatten.length < 2 ^ 63)
    (hblocks : (chunks.flatten.length + cfg.blockSize - 1) / cfg.blockSize < 2 ^ 32)
    (hcf : Tree.NoCollision cr.sha256 (hashedData cr cfg.blockSize chunks.flatten)
      (hashedData cr cfg.blockSize chunks.flatten))
    {s : B.State} (hs : Valid (· ∈ uploadBlocks cr px cfg.blockSize chunks.flatten) s)
    (sched : Schedule) :
    ∃ cid w, Handler.run (archivistUpload cr cfg px (chunks.map .ok)) sched s = (.ok cid, w) ∧
      ∀ (sched' : Schedule) (cidStr : String) (range : Option String),
        (Handler.run (archivistDownloadLocal cr px cid cidStr range) sched' w.store).1 =
          buildRangeResponse range chunks.flatten ∧
        ∀ data ∈ cut cfg.blockSize chunks.flatten,
          (Handler.run (archivistDownloadLocal cr px (shaBlock cr data).cid cidStr range) sched'
            w.store).1 = buildRangeResponse range data := by
  have hmax : (cut cfg.blockSize chunks.flatten).length < 2 ^ 32 := by rwa [length_cut]
  have hsmall := length_of_blocks hn hn32 hblocks
  have hcons := @consistent_uploadBlocks cr px _ _ hcf
  have ctx : Context cr B (· ∈ uploadBlocks cr px cfg.blockSize chunks.flatten)
      (Valid (· ∈ uploadBlocks cr px cfg.blockSize chunks.flatten)) True :=
    ⟨hcr, fun _ => hB _ hcons, fun _ => hcons⟩
  obtain ⟨cid, hok, rfl, hheld⟩ := Ends.exists_ok (upload_ends ctx sched cfg px hn hne hsmall
    hmax (fun _ b hb => hb) (fun _ => hs) rfl) fun _ _ h => h trivial
  obtain ⟨hvalid, hblk⟩ := hheld trivial
  have hsys : SysOk cr B (Valid (· ∈ uploadBlocks cr px cfg.blockSize chunks.flatten)) True []
      (Sys.start _) := SysOk.start fun _ => hvalid
  refine ⟨_, _, Prod.ext hok rfl, fun sched' cidStr range => ⟨?_, fun data hdata => ?_⟩⟩
  · have hcodec : (manifestBlock cr px cfg.blockSize chunks.flatten).cid.codec =
        Manifest.manifestCodec := rfl
    rw [archivistDownloadLocal, if_pos hcodec]
    exact Ends.eq_result (downloadManifest_ends ctx sched' trivial hn hn32 hsmall hmax hroom hsys
      hblk cidStr range)
  · have hcodec : archivistBlockCodec ≠ Manifest.manifestCodec := by decide
    exact Ends.eq_result (downloadBlock_ends ctx sched' trivial hcodec hsys
      (hblk _ (List.mem_append_left _ (List.mem_map_of_mem hdata))) cidStr range)

end Api
