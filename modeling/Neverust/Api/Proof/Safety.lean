import Neverust.Api.Proof.RangeHeader
import Neverust.Api.Proof.Upload
import Neverust.Manifest.Proof.Codec
import Neverust.Storage.Redb

/-!
# Which manifests and block lists can be downloaded without a panic

The store and the tasks are any function that answers the requests. A handler whose requests are
answered returns a value or an error, or panics.

* `full_returns_iff`: when the download of a whole dataset returns.
* `range_returns_iff`: when the download of a range of it does.
* `safe_iff`: both, with the count of the blocks and the header of the request.
-/

namespace Api

open Rust Storage Request

variable {σ α β : Type} {h : (r : ApiReq) → σ → ApiAns r × σ} {s : σ}

/-! ## Handlers that return -/

theorem returns_bind {p : Handler α} {f : α → Handler β} :
    Returns (Prog.run h (p >>= f) s).1 ↔
      Returns (Prog.run h p s).1 ∧
        ∀ a, (Prog.run h p s).1 = .ok a → Returns (Prog.run h (f a) (Prog.run h p s).2).1 := by
  rw [Prog.run_bind]
  cases (Prog.run h p s).1 with
  | ok a =>
    refine ⟨fun hr => ⟨trivial, fun b hb => ?_⟩, fun hr => hr.2 a rfl⟩
    rw [← Except.ok.inj hb]
    exact hr
  | error e =>
    exact ⟨fun hr => ⟨Returns.error_iff.1 hr, fun a ha => nomatch ha⟩,
      fun hr => Returns.error_iff.1 hr.1⟩

theorem returns_lift_bind {r : Result ApiError α} {f : α → Handler β} :
    Returns (Prog.run h ((liftM r : Handler α) >>= f) s).1 ↔
      Returns r ∧ ∀ a, r = .ok a → Returns (Prog.run h (f a) s).1 :=
  returns_bind

theorem returns_lift_ok {r : Result ApiError α} {a : α} (hr : r = .ok a) {f : α → Handler β} :
    Returns (Prog.run h ((liftM r : Handler α) >>= f) s).1 ↔ Returns (Prog.run h (f a) s).1 := by
  subst hr
  exact Iff.rfl

theorem returns_wrap {ε : Type} (f : ε → ApiError) (r : Except ε α) : Returns (wrap f r) := by
  cases r with
  | ok a => trivial
  | error e => trivial

/-- A read that does not go wrong gives what the store answers. -/
theorem getBlock_eq_ok {missing : String} {fail : StorageError → Internal} {cid : Cid}
    {b : Block} :
    (Prog.run h (getBlock missing fail cid) s).1 = .ok b ↔ (h (.store (.get cid)) s).1 = .ok b := by
  show wrap _ (h (.store (.get cid)) s).1 = _ ↔ _
  cases (h (.store (.get cid)) s).1 with
  | ok b' => exact ⟨fun hb => congrArg _ (Except.ok.inj hb), fun hb => congrArg _ (Except.ok.inj hb)⟩
  | error e => exact ⟨fun hb => (nomatch hb), fun hb => (nomatch hb)⟩

theorem getBlock_returns (missing : String) (fail : StorageError → Internal) (cid : Cid) :
    Returns (Prog.run h (getBlock missing fail cid) s).1 :=
  returns_wrap _ _

theorem blocksCount_returns_iff {m : Manifest} :
    Returns (m.blocksCount : Result ApiError Nat) ↔
      0 < m.blockSize.toNat ∧ m.datasetSize.toNat + m.blockSize.toNat < 2 ^ 64 := by
  have hzero : m.blockSize = 0 ↔ m.blockSize.toNat = 0 := UInt64.toNat_inj.symm
  unfold Manifest.blocksCount
  split
  · exact iff_of_false id (by omega)
  · split
    · exact iff_of_false id (by omega)
    · split
      · rename_i h0
        rw [hzero] at h0
        exact iff_of_false id (by omega)
      · rename_i h0
        rw [hzero] at h0
        exact iff_of_true trivial (by omega)

section
variable {cr : Crates} {px : Prost}

/-! ## The whole dataset -/

/-- `retrieve_local_cid_data` once it has the manifest and the block list. -/
def retrieveListed (cr : Crates) (manifest : Manifest) (blockCids : List Cid) : Handler Bytes := do
  let expected ← liftM (manifest.blocksCount : Result ApiError Nat)
  if blockCids.length ≠ expected then
    liftM (.error (.err (.internal (.countMismatch blockCids.length expected)))
      : Result ApiError _)
  else do
    liftM (withCapacity manifest.datasetSize.toNat : Result ApiError Unit)
    let data ← assemble cr blockCids
    if data.length ≠ manifest.datasetSize.toNat then
      liftM (.error (.err (.internal (.sizeMismatch data.length manifest.datasetSize.toNat)))
        : Result ApiError _)
    else return data

/-- The download of a dataset loads its manifest as the download of a range does. -/
theorem retrieve_eq_load {cid : Cid} (hcodec : cid.codec = Manifest.manifestCodec)
    (cidStr : String) :
    retrieveLocalCidData cr px cid cidStr =
      loadManifestMetadata cr px cid cidStr >>= fun r => retrieveListed cr r.1 r.2 := by
  unfold retrieveLocalCidData loadManifestMetadata
  rw [Prog.bind_assoc]
  congr 1
  funext block
  rw [if_pos hcodec, Prog.bind_assoc]
  congr 1
  funext manifest
  cases metadataCidFromManifest cr manifest with
  | none => rfl
  | some metadataCid =>
    dsimp only
    rw [Prog.bind_assoc]
    congr 1
    funext metadataBlock
    rw [Prog.bind_assoc]
    rfl

theorem assemble_returns (blockCids : List Cid) :
    Returns (Prog.run h (assemble cr blockCids) s).1 := by
  unfold assemble
  generalize ([] : Bytes) = data
  induction blockCids generalizing data s with
  | nil => trivial
  | cons blockCid blockCids ih =>
    rw [List.foldlM_cons]
    refine returns_bind.2 ⟨?_, fun data' _ => ih data'⟩
    exact returns_bind.2 ⟨getBlock_returns _ _ _, fun b _ => trivial⟩

/-- What the download of a dataset needs: blocks that can be counted, and a list of that many CIDs
only for data that there can be a list of bytes for. -/
def CountFits (m : Manifest) (blockCids : List Cid) : Prop :=
  blockCids.length = (m.datasetSize.toNat + m.blockSize.toNat - 1) / m.blockSize.toNat →
    m.datasetSize.toNat < isizeSize

theorem listed_returns_iff {m : Manifest} {blockCids : List Cid} :
    Returns (Prog.run h (retrieveListed cr m blockCids) s).1 ↔
      Returns (m.blocksCount : Result ApiError Nat) ∧ CountFits m blockCids := by
  refine Iff.trans returns_lift_bind (and_congr_right fun hcount => ?_)
  obtain ⟨hpos, hlt⟩ := blocksCount_returns_iff.1 hcount
  have heq := @blocksCount_eq m hpos hlt
  constructor
  · intro hret hlen
    have hret := hret _ heq
    rw [if_neg (not_not.2 hlen)] at hret
    exact Returns.withCapacity_iff.1 (returns_lift_bind.1 hret).1
  · intro hfits expected hexpected
    obtain rfl := Except.ok.inj (heq.symm.trans hexpected)
    by_cases hlen : blockCids.length = (m.datasetSize.toNat + m.blockSize.toNat - 1) /
        m.blockSize.toNat
    · rw [if_neg (not_not.2 hlen)]
      refine returns_lift_bind.2 ⟨Returns.withCapacity_iff.2 (hfits hlen), fun _ _ => ?_⟩
      refine returns_bind.2 ⟨assemble_returns blockCids, fun data _ => ?_⟩
      split
      · trivial
      · trivial
    · rw [if_pos hlen]
      trivial

/-- **The download of a whole dataset** returns exactly if its blocks can be counted and the list
fits them. -/
theorem full_returns_iff {cid : Cid} (hcodec : cid.codec = Manifest.manifestCodec)
    {cidStr : String} {m : Manifest} {blockCids : List Cid}
    (hload : (Prog.run h (loadManifestMetadata cr px cid cidStr) s).1 = .ok (m, blockCids)) :
    Returns (Prog.run h (retrieveLocalCidData cr px cid cidStr) s).1 ↔
      Returns (m.blocksCount : Result ApiError Nat) ∧ CountFits m blockCids := by
  rw [retrieve_eq_load hcodec, returns_bind, hload]
  constructor
  · intro hret
    have hlisted := hret.2 (m, blockCids) rfl
    exact listed_returns_iff.1 hlisted
  · intro hfits
    refine ⟨trivial, fun r hr => ?_⟩
    obtain rfl := Except.ok.inj hr
    exact listed_returns_iff.2 hfits

/-! ## A range -/

section
variable {n start stop : Nat} {blockCids : List Cid}

/-- One block: its part of the range is in it. -/
theorem readPart_returns_iff {first last k : Nat} {data : Bytes} (hk : k < blockCids.length)
    (hmul : k * n < usizeSize) (hfirst : k = first → k * n ≤ start)
    (hlast : k = last → k * n ≤ stop) :
    Returns (Prog.run h (readPart cr n first last start stop blockCids data k) s).1 ↔
      ∀ block, (h (.store (.get blockCids[k])) s).1 = .ok block →
        (if k = first then start - k * n else 0) ≤
          if k = last then min (stop - k * n) block.data.length else block.data.length := by
  have hfrom : (if k = first then usizeSub start (k * n) else .ok 0 : Result ApiError Nat) =
      .ok (if k = first then start - k * n else 0) := by
    split
    · rename_i heq
      exact usizeSub_of_le (hfirst heq)
    · rfl
  have hto : ∀ block : Block, (if k = last then do
        let m ← usizeSub stop (k * n)
        return min m block.data.length
      else .ok block.data.length : Result ApiError Nat) =
      .ok (if k = last then min (stop - k * n) block.data.length else block.data.length) := by
    intro block
    split
    · rename_i heq
      rw [usizeSub_of_le (hlast heq)]
      rfl
    · rfl
  have hpart : ∀ (block : Block) (s' : σ),
      Returns (Prog.run h (do
        let blockStartByte ← liftM (usizeMul k n : Result ApiError Nat)
        let sliceStart ← liftM (if k = first then usizeSub start blockStartByte else .ok 0
          : Result ApiError Nat)
        let sliceEnd ← liftM (if k = last then do
            let n ← usizeSub stop blockStartByte
            return min n block.data.length
          else .ok block.data.length : Result ApiError Nat)
        let slice ← liftM (Rust.range block.data sliceStart sliceEnd : Result ApiError Bytes)
        return data ++ slice : Handler Bytes) s').1 ↔
      (if k = first then start - k * n else 0) ≤
        if k = last then min (stop - k * n) block.data.length else block.data.length := by
    intro block s'
    rw [returns_lift_ok (usizeMul_of_lt hmul), returns_lift_ok hfrom, returns_lift_ok (hto block),
      returns_lift_bind, Returns.range_iff]
    constructor
    · exact fun hr => hr.1.1
    · intro hle
      refine ⟨⟨hle, ?_⟩, fun _ _ => trivial⟩
      split
      · exact Nat.min_le_right _ _
      · exact Nat.le_refl _
  unfold readPart
  rw [returns_lift_ok (index_of_lt hk)]
  refine Iff.trans returns_bind ⟨fun hr block hblock => ?_, fun hall => ?_⟩
  · exact (hpart block _).1 (hr.2 block (getBlock_eq_ok.2 hblock))
  · exact ⟨getBlock_returns _ _ _, fun block hblock =>
      (hpart block _).2 (hall block (getBlock_eq_ok.1 hblock))⟩

/-- The blocks after the first one are read whole, or up to the end of the range. -/
theorem readParts_returns {first last : Nat}
    (hmul : ∀ k, k ≤ last → k * n < usizeSize ∧ k * n ≤ stop) :
    ∀ (count : Nat) {k : Nat} (data : Bytes) {s : σ}, first < k → k + count ≤ last + 1 →
      k + count ≤ blockCids.length →
      Returns (Prog.run h ((List.range' k count).foldlM
        (readPart cr n first last start stop blockCids) data) s).1
  | 0, k, data, s, _, _, _ => trivial
  | count + 1, k, data, s, hfirst, hlast, hlen => by
    rw [List.range'_succ, List.foldlM_cons]
    obtain ⟨hk, hstop⟩ := hmul k (by omega)
    refine returns_bind.2 ⟨?_, fun data' _ =>
      readParts_returns hmul count data' (by omega) (by omega) (by omega)⟩
    refine (readPart_returns_iff (by omega) hk (fun heq => by omega) fun _ => hstop).2 ?_
    intro block _
    rw [if_neg (by omega)]
    exact Nat.zero_le _

/-- The first block of a range that the store has reaches up to the start of the range. -/
def Reaches (h : (r : ApiReq) → σ → ApiAns r × σ) (s : σ) (n : Nat) (blockCids : List Cid)
    (start : Nat) : Prop :=
  ∀ blockCid block, blockCids[start / n]? = some blockCid →
    (h (.store (.get blockCid)) s).1 = .ok block → start % n ≤ block.data.length

theorem readAll_returns_iff (hpos : 0 < n) (hlt : start < stop) (hstop : stop ≤ usizeSize)
    (hlen : 0 < blockCids.length) :
    Returns (Prog.run h ((List.range' (start / n)
        (min ((stop - 1) / n) (blockCids.length - 1) + 1 - start / n)).foldlM
        (readPart cr n (start / n) ((stop - 1) / n) start stop blockCids) []) s).1 ↔
      Reaches h s n blockCids start := by
  have hfirst : start / n ≤ (stop - 1) / n := Nat.div_le_div_right (by omega)
  have hmul : ∀ k, k ≤ (stop - 1) / n → k * n < usizeSize ∧ k * n ≤ stop := by
    intro k hk
    have := (Nat.le_div_iff_mul_le hpos).1 hk
    omega
  by_cases hk : start / n < blockCids.length
  · obtain ⟨hstart, hbelow⟩ := hmul _ hfirst
    have hcount : min ((stop - 1) / n) (blockCids.length - 1) + 1 - start / n =
        (min ((stop - 1) / n) (blockCids.length - 1) - start / n) + 1 := by omega
    rw [hcount, List.range'_succ, List.foldlM_cons, returns_bind,
      readPart_returns_iff hk hstart (fun _ => Nat.div_mul_le_self start n) fun _ => hbelow]
    have hrest : ∀ (data : Bytes) (s' : σ), Returns (Prog.run h ((List.range' (start / n + 1)
        (min ((stop - 1) / n) (blockCids.length - 1) - start / n)).foldlM
        (readPart cr n (start / n) ((stop - 1) / n) start stop blockCids) data) s').1 :=
      fun data s' => readParts_returns hmul _ data (by omega) (by omega) (by omega)
    have hmod : start - start / n * n = start % n := by
      rw [Nat.mod_def, Nat.mul_comm]
    have hin : ∀ block : Block, (if start / n = start / n then start - start / n * n else 0) ≤
        (if start / n = (stop - 1) / n then min (stop - start / n * n) block.data.length
          else block.data.length) ↔ start % n ≤ block.data.length := by
      intro block
      rw [if_pos rfl, hmod]
      split
      · omega
      · exact Iff.rfl
    constructor
    · rintro ⟨hread, -⟩ blockCid block hcid hblock
      rw [List.getElem?_eq_getElem hk] at hcid
      obtain rfl := Option.some.inj hcid
      exact (hin block).1 (hread block hblock)
    · intro hreach
      refine ⟨fun block hblock => (hin block).2 ?_, fun data _ => hrest data _⟩
      exact hreach _ block (List.getElem?_eq_getElem hk) hblock
  · rw [show min ((stop - 1) / n) (blockCids.length - 1) + 1 - start / n = 0 by omega]
    refine iff_of_true trivial fun blockCid block hcid _ => ?_
    rw [List.getElem?_eq_none (Nat.le_of_not_lt hk)] at hcid
    cases hcid

/-- What the download of a range needs: blocks with a size, room for the range, a block list, and a
first block that reaches up to the start of the range. -/
structure RangeFits (h : (r : ApiReq) → σ → ApiAns r × σ) (s : σ) (n : Nat) (blockCids : List Cid)
    (start stop : Nat) : Prop where
  pos : 0 < n
  room : stop - start < isizeSize
  listed : blockCids ≠ []
  reaches : Reaches h s n blockCids start

/-- **The download of a range** returns exactly if the range fits. -/
theorem range_returns_iff {m : Manifest} (hlt : start < stop)
    (hstop : stop ≤ m.datasetSize.toNat) :
    Returns (Prog.run h (retrieveManifestRange cr m blockCids start stop) s).1 ↔
      RangeFits h s m.blockSize.toNat blockCids start stop := by
  have hsize : m.datasetSize.toNat < usizeSize := m.datasetSize.toNat_lt
  by_cases hpos : 0 < m.blockSize.toNat
  · unfold retrieveManifestRange
    rw [returns_lift_ok (usizeDiv_of_pos hpos),
      returns_lift_ok (usizeSub_of_le (show 1 ≤ stop by omega)),
      returns_lift_ok (usizeDiv_of_pos hpos), returns_lift_ok (usizeSub_of_le (Nat.le_of_lt hlt))]
    constructor
    · intro hret
      have hroom := Returns.withCapacity_iff.1 (returns_lift_bind.1 hret).1
      rw [returns_lift_ok (withCapacity_of_lt hroom)] at hret
      have hlen := Returns.usizeSub_iff.1 (returns_lift_bind.1 hret).1
      rw [returns_lift_ok (usizeSub_of_le hlen)] at hret
      have hlisted : blockCids ≠ [] := List.length_pos_iff.1 hlen
      exact ⟨hpos, hroom, hlisted, (readAll_returns_iff hpos hlt (by omega) hlen).1 hret⟩
    · intro hfits
      have hlen : 1 ≤ blockCids.length := List.length_pos_iff.2 hfits.listed
      rw [returns_lift_ok (withCapacity_of_lt hfits.room), returns_lift_ok (usizeSub_of_le hlen)]
      exact (readAll_returns_iff hpos hlt (by omega) hlen).2 hfits.reaches
  · refine iff_of_false (fun hret => ?_) fun hfits => hpos hfits.pos
    have hdiv := (returns_lift_bind.1 hret).1
    rw [usizeDiv, if_pos (Nat.eq_zero_of_not_pos hpos)] at hdiv
    exact hdiv

end

end

/-! ## All of it -/

/-- A manifest with its block list can be downloaded, as a whole and in the range of a header. -/
structure Safe (cr : Crates) (px : Prost) (h : (r : ApiReq) → σ → ApiAns r × σ) (s : σ)
    (m : Manifest) (blockCids : List Cid) (header : String) : Prop where
  count : Returns (m.blocksCount : Result ApiError Nat)
  full : ∀ (cid : Cid) (cidStr : String), cid.codec = Manifest.manifestCodec →
    (Prog.run h (loadManifestMetadata cr px cid cidStr) s).1 = .ok (m, blockCids) →
    Returns (Prog.run h (retrieveLocalCidData cr px cid cidStr) s).1
  parse : Returns (parseRangeHeader header m.datasetSize.toNat : Result ApiError _)
  range : ∀ start stop,
    (parseRangeHeader header m.datasetSize.toNat : Result ApiError _) = .ok (some (start, stop)) →
    Returns (Prog.run h (retrieveManifestRange cr m blockCids start stop) s).1

/-- **Which downloads are safe.** -/
theorem safe_iff (cr : Crates) (px : Prost) (h : (r : ApiReq) → σ → ApiAns r × σ) (s : σ)
    (m : Manifest) (blockCids : List Cid) (header : String) :
    Safe cr px h s m blockCids header ↔
      (0 < m.blockSize.toNat ∧ m.datasetSize.toNat + m.blockSize.toNat < 2 ^ 64) ∧
      (∀ (cid : Cid) (cidStr : String), cid.codec = Manifest.manifestCodec →
        (Prog.run h (loadManifestMetadata cr px cid cidStr) s).1 = .ok (m, blockCids) →
        CountFits m blockCids) ∧
      ¬ Overflows header ∧
      ∀ start stop,
        (parseRangeHeader header m.datasetSize.toNat : Result ApiError _) =
          .ok (some (start, stop)) →
        RangeFits h s m.blockSize.toNat blockCids start stop := by
  constructor
  · intro hsafe
    refine ⟨blocksCount_returns_iff.1 hsafe.count, fun cid cidStr hcodec hload => ?_,
      parse_returns_iff.1 hsafe.parse, fun start stop hparse => ?_⟩
    · exact ((full_returns_iff hcodec hload).1 (hsafe.full cid cidStr hcodec hload)).2
    · obtain ⟨hlt, hstop⟩ := parse_bounds hparse
      exact (range_returns_iff hlt hstop).1 (hsafe.range start stop hparse)
  · rintro ⟨hcount, hfull, hheader, hrange⟩
    have hcount := blocksCount_returns_iff.2 hcount
    refine ⟨hcount, fun cid cidStr hcodec hload => ?_, parse_returns_iff.2 hheader,
      fun start stop hparse => ?_⟩
    · exact (full_returns_iff hcodec hload).2 ⟨hcount, hfull cid cidStr hcodec hload⟩
    · obtain ⟨hlt, hstop⟩ := parse_bounds hparse
      exact (range_returns_iff hlt hstop).2 (hrange start stop hparse)

/-- A manifest with blocks of no bytes. -/
theorem zero_block_size :
    ¬ ∀ (b data : Bytes) (m : Manifest) (blockCids : List Cid) (header : String)
      (sched : Schedule) (s : (RedbStore.backend .standard false).State),
      Manifest.decode .standard .standard b = .ok m →
      Tree.deserializeBlockList .standard data = .ok blockCids →
      Safe .standard .standard (Sys.answer sched) (Sys.start s) m blockCids header := by
  intro hall
  have hsafe := hall _ [0, 0, 0, 0] (Manifest.sampleManifest 0).narrowed [] "bytes=0-0"
    { advance := fun _ => [], pick := id } RedbStore.empty (Manifest.decode_encode _) rfl
  exact absurd (blocksCount_returns_iff.1 hsafe.count).1 (by decide)

end Api
