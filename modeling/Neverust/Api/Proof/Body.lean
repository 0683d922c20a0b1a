import Neverust.Api.Proof.Pipeline
import Neverust.Lib.Chunks

/-!
# The body of an upload

However the body is split into chunks, the blocks are the body cut every `blockSize` bytes.

* `intake`: the bytes of the body stream that are read.
* `takeChunk_ends`, `readChunks_ends`: what the bytes read so far have become.
* `finishBlocks_ends`: at the end the CIDs are those of the cut body, and a good store holds its
  blocks.
-/

namespace Api

open Rust Storage Request Chunks

variable {cr : Crates} {B : Backend} {K : Block → Prop} {Valid : B.State → Prop} {good : Prop}

/-- The bytes `done` have been read: complete blocks, and the start of the next one. -/
def Reads (cr : Crates) (B : Backend) (Valid : B.State → Prop) (good : Prop) (cfg : UploadConfig)
    (done : Bytes) (st : UploadState) (w : Sys B) : Prop :=
  ∃ blocks : List Bytes, done = blocks.flatten ++ st.currentBlock ∧
    (∀ b ∈ blocks, b.length = cfg.blockSize) ∧ st.currentBlock.length < cfg.blockSize ∧
    Inv cr B Valid good cfg blocks st w

theorem Reads.valid {cfg : UploadConfig} {done : Bytes} {st : UploadState} {w : Sys B}
    (h : Reads cr B Valid good cfg done st w) : good → Valid w.store := by
  obtain ⟨blocks, -, -, -, flushed, -, hinv⟩ := h
  split at hinv
  · exact hinv.sys.valid
  · exact hinv.sys.valid

/-- The bytes that are read of a body stream if `size` bytes were read before, and whether these
are all of it. An item that is an error ends the upload, and so does one that makes the size
overflow. -/
def intake (size : Nat) : List (Except String Bytes) → Bytes × Bool
  | [] => ([], true)
  | .error _ :: _ => ([], false)
  | .ok chunk :: chunks =>
    if size + chunk.length < 2 ^ 64 then
      (chunk ++ (intake (size + chunk.length) chunks).1, (intake (size + chunk.length) chunks).2)
    else ([], false)

/-- A stream of chunks is read as a whole. -/
theorem intake_map_ok : ∀ (chunks : List Bytes) {size : Nat},
    size + chunks.flatten.length < 2 ^ 64 → intake size (chunks.map .ok) = (chunks.flatten, true)
  | [], _, _ => rfl
  | chunk :: chunks, size, h => by
    rw [List.flatten_cons, List.length_append] at h
    rw [List.map_cons, intake, if_pos (by omega), intake_map_ok chunks (by omega),
      List.flatten_cons]

/-- The complete blocks are the first pieces of the body. -/
theorem cut_eq_blocks {n : Nat} (hn : 0 < n) {body rest : Bytes} {blocks : List Bytes}
    (hlen : ∀ b ∈ blocks, b.length = n) (hbody : body = blocks.flatten ++ rest) :
    cut n body = blocks ++ cut n rest := by
  rw [hbody, cut_flatten hn rest hlen]

/-- The current block grows, up to a complete one. -/
theorem reads_addBytes (cfg : UploadConfig) {done bytes : Bytes} {st : UploadState} {w : Sys B}
    (h : Reads cr B Valid good cfg done st w)
    (hle : st.currentBlock.length + bytes.length ≤ cfg.blockSize) :
    Reads cr B Valid good cfg (done ++ bytes) (addBytes cfg st bytes) w ∧
      (addBytes cfg st bytes).datasetSize = st.datasetSize := by
  obtain ⟨blocks, hdone, hlen, hcur, hinv⟩ := h
  have hinv₁ : Inv cr B Valid good cfg blocks
      { st with currentBlock := st.currentBlock ++ bytes } w := hinv.congr cfg rfl
  unfold addBytes
  dsimp only
  split
  · rename_i hfull
    refine ⟨⟨blocks ++ [st.currentBlock ++ bytes], ?_, fun b hb => ?_, ?_,
      inv_pushBlock cfg hinv₁⟩, rfl⟩
    · show _ = (blocks ++ [st.currentBlock ++ bytes]).flatten ++ []
      rw [hdone]
      simp
    · rcases List.mem_append.1 hb with hb | hb
      · exact hlen b hb
      · rw [List.mem_singleton.1 hb]
        exact hfull
    · show 0 < cfg.blockSize
      omega
  · rename_i hfull
    refine ⟨⟨blocks, by rw [hdone, List.append_assoc], hlen, ?_, hinv₁⟩, rfl⟩
    rw [List.length_append] at hfull
    show (st.currentBlock ++ bytes).length < _
    rw [List.length_append]
    omega

section
variable (ctx : Context cr B K Valid good) (sched : Schedule) (cfg : UploadConfig)
  (hn : 0 < cfg.blockSize) {body : Bytes}
  (hK : good → ∀ b ∈ cut cfg.blockSize body, K (shaBlock cr b))
  (hmax : (cut cfg.blockSize body).length < usizeSize)
include ctx hn hK hmax

theorem commit_reads {done later : Bytes} {st : UploadState} {w : Sys B}
    (hbody : body = done ++ later) (h : Reads cr B Valid good cfg done st w) :
    Ends (Sys.answer sched) (commitBatch cr cfg st) w
      (fun st' w' => Reads cr B Valid good cfg done st' w' ∧ SameInput st st')
      (fun _ _ => ¬ good) := by
  obtain ⟨blocks, hdone, hlen, hcur, hinv⟩ := h
  have hcut := cut_eq_blocks hn hlen
    (show body = blocks.flatten ++ (st.currentBlock ++ later) by rw [hbody, hdone]; simp)
  have hmem : ∀ b ∈ blocks, b ∈ cut cfg.blockSize body := fun b hb => by
    rw [hcut]
    exact List.mem_append_left _ hb
  rw [hcut, List.length_append] at hmax
  refine Ends.mono (commit_ends ctx sched cfg (fun hg b hb => hK hg b (hmem b hb)) (by omega) hinv) ?_
  rintro st' w' ⟨hinv', hsame⟩
  refine ⟨⟨blocks, ?_, hlen, ?_, hinv'⟩, hsame⟩
  · rw [hsame.currentBlock]
    exact hdone
  · rw [hsame.currentBlock]
    exact hcur

/-- **The bytes of a chunk.** -/
theorem takeChunk_ends :
    ∀ (fuel : Nat) (rem later done : Bytes) {st : UploadState} {w : Sys B}, rem.length ≤ fuel →
      body = done ++ rem ++ later → Reads cr B Valid good cfg done st w →
      Ends (Sys.answer sched) (takeChunk cr cfg fuel st rem) w
        (fun st' w' => Reads cr B Valid good cfg (done ++ rem) st' w' ∧
          st'.datasetSize = st.datasetSize)
        (fun _ _ => ¬ good)
  | 0, rem, later, done, st, w, hfuel, _, h => by
    have hrem : rem = [] := List.length_eq_zero_iff.1 (by omega)
    rw [takeChunk, if_pos hrem, hrem, List.append_nil]
    exact Ends.pure ⟨h, rfl⟩
  | fuel + 1, rem, later, done, st, w, hfuel, hbody, h => by
    rw [takeChunk]
    split
    · rename_i hrem
      rw [hrem, List.append_nil]
      exact Ends.pure ⟨h, rfl⟩
    · rename_i hrem
      have hpos := List.length_pos_iff.2 hrem
      have hcur : st.currentBlock.length < cfg.blockSize := h.choose_spec.2.2.1
      dsimp only
      -- at least one byte is taken
      generalize htake : min (cfg.blockSize - st.currentBlock.length) rem.length = take
      have hrest : done ++ rem = done ++ rem.take take ++ rem.drop take := by
        rw [List.append_assoc, List.take_append_drop]
      have hbody' : body = done ++ rem.take take ++ rem.drop take ++ later := by
        rw [hbody, hrest]
      obtain ⟨hadd, hsize⟩ := @reads_addBytes cr B Valid good cfg done (rem.take take) st w h (by
        rw [List.length_take]
        omega)
      refine Ends.bind (commit_reads ctx sched cfg hn hK hmax
        (by rw [hbody', List.append_assoc]) hadd) ?_
      rintro st₁ w₁ ⟨hreads, hsame⟩
      have hle : (rem.drop take).length ≤ fuel := by
        rw [List.length_drop]
        omega
      refine Ends.mono (takeChunk_ends fuel _ later _ hle hbody' hreads) ?_
      rintro st₂ w₂ ⟨hreads', hsize₂⟩
      rw [hrest]
      exact ⟨hreads', hsize₂.trans (hsame.datasetSize.trans hsize)⟩

/-- One chunk. -/
theorem readChunk_ends {chunk later done : Bytes} {st : UploadState} {w : Sys B}
    (hbody : body = done ++ chunk ++ later) (hlen : done.length + chunk.length < 2 ^ 64)
    (hsize : st.datasetSize.toNat = done.length) (h : Reads cr B Valid good cfg done st w) :
    Ends (Sys.answer sched) (readChunk cr cfg st (.ok chunk)) w
      (fun st' w' => Reads cr B Valid good cfg (done ++ chunk) st' w' ∧
        st'.datasetSize.toNat = (done ++ chunk).length)
      (fun _ _ => ¬ good) := by
  apply Ends.lift_bind rfl
  split
  · rename_i hnil
    rw [hnil, List.append_nil]
    exact Ends.pure ⟨h, hsize⟩
  · cases hadd : checkedAdd64 st.datasetSize chunk.length with
    | none =>
      have := checkedAdd64_eq_none hadd
      omega
    | some size =>
      have hval := checkedAdd64_eq_some hadd
      obtain ⟨blocks, hdone, hblocks, hcur, hinv⟩ := h
      have hreads : Reads cr B Valid good cfg done { st with datasetSize := size } w :=
        ⟨blocks, hdone, hblocks, hcur, hinv.congr cfg rfl⟩
      refine Ends.mono (takeChunk_ends ctx sched cfg hn hK hmax chunk.length chunk later done
        (Nat.le_refl _) hbody hreads) ?_
      rintro st' w' ⟨hreads', hsize'⟩
      refine ⟨hreads', ?_⟩
      rw [hsize', List.length_append]
      show size.toNat = _
      omega

/-- **All items**: the loop ends with a value if all of them are read, and a good store stays good if
it does not. -/
theorem readChunks_ends :
    ∀ (chunks : List (Except String Bytes)) (done : Bytes) {st : UploadState} {w : Sys B},
      body = done ++ (intake done.length chunks).1 → st.datasetSize.toNat = done.length →
      Reads cr B Valid good cfg done st w →
      Ends (Sys.answer sched) (chunks.foldlM (readChunk cr cfg) st) w
        (fun st' w' => (intake done.length chunks).2 = true ∧
          Reads cr B Valid good cfg body st' w' ∧ st'.datasetSize.toNat = body.length)
        (fun _ w' => good → Valid w'.store ∧ (intake done.length chunks).2 = false)
  | [], done, st, w, hbody, hsize, h => by
    rw [intake, List.append_nil] at hbody
    rw [hbody]
    exact Ends.pure ⟨rfl, h, hsize⟩
  | .error e :: chunks, done, st, w, hbody, hsize, h => by
    refine Ends.bind (Q := fun _ _ => False) (Ends.lift_bind_error rfl fun hg => ?_)
      fun _ _ hf => hf.elim
    exact ⟨h.valid hg, rfl⟩
  | .ok chunk :: chunks, done, st, w, hbody, hsize, h => by
    rw [intake] at hbody ⊢
    by_cases hlen : done.length + chunk.length < 2 ^ 64
    · rw [if_pos hlen] at hbody ⊢
      rw [← List.length_append] at hbody ⊢
      rw [← List.append_assoc] at hbody
      refine Ends.bind (Ends.imp (readChunk_ends ctx sched cfg hn hK hmax hbody hlen hsize h)
        (fun _ _ hq => hq) fun _ _ hng hg => absurd hg hng) ?_
      rintro st' w' ⟨h', hsize'⟩
      exact readChunks_ends chunks (done ++ chunk) hbody hsize' h'
    · rw [if_neg hlen]
      refine Ends.bind (Q := fun _ _ => False) ?_ fun _ _ hf => hf.elim
      refine Ends.lift_bind rfl ?_
      split
      · rename_i hnil
        rw [hnil] at hlen
        have := st.datasetSize.toNat_lt
        exact absurd (by rw [List.length_nil]; omega) hlen
      · cases hadd : checkedAdd64 st.datasetSize chunk.length with
        | none => exact Ends.lift (fun _ hr => nomatch hr) fun _ _ hg => ⟨h.valid hg, rfl⟩
        | some size =>
          have hval := checkedAdd64_eq_some hadd
          have := size.toNat_lt
          omega

/-- **The end of the body**: the CIDs are those of the cut body, and a good store holds the
blocks. -/
theorem finishBlocks_ends {st : UploadState} {w : Sys B}
    (h : Reads cr B Valid good cfg body st w) :
    Ends (Sys.answer sched) (finishBlocks cr cfg st) w
      (fun st' w' => st'.blockCids = (cut cfg.blockSize body).map (shaCid cr) ∧
        st'.datasetSize = st.datasetSize ∧ SysOk cr B Valid good [] w' ∧
        (good → ∀ b ∈ cut cfg.blockSize body, B.Holds w'.store (shaBlock cr b)))
      (fun _ _ => ¬ good) := by
  obtain ⟨blocks, hdone, hlen, hcur, hinv⟩ := h
  have hcut : cut cfg.blockSize body =
      blocks ++ if st.currentBlock ≠ [] then [st.currentBlock] else [] := by
    rw [cut_eq_blocks hn hlen hdone]
    congr 1
    split
    · rename_i hne
      exact cut_of_le hne (Nat.le_of_lt hcur)
    · rename_i he
      rw [not_not.1 he, cut_nil hn]
  -- the batch with the last block
  obtain ⟨st₁, hst₁, hinv₁, hsize₁⟩ : ∃ st₁,
      (if st.currentBlock ≠ [] then pushBlock cfg st else st) = st₁ ∧
      Inv cr B Valid good cfg (cut cfg.blockSize body) st₁ w ∧
      st₁.datasetSize = st.datasetSize := by
    rw [hcut]
    split
    · exact ⟨_, rfl, inv_pushBlock cfg hinv, rfl⟩
    · rw [List.append_nil]
      exact ⟨_, rfl, hinv, rfl⟩
  unfold finishBlocks
  dsimp only
  rw [hst₁]
  obtain ⟨flushed, hflushed, hinv₁⟩ := hinv₁
  rw [hflushed] at hK hmax ⊢
  split
  · rename_i hd
    rw [if_pos hd] at hinv₁
    refine Ends.mono (flush_ends ctx sched cfg.hashWorkers hK hinv₁) ?_
    rintro st' w' ⟨hinv', -, hsame⟩
    exact ⟨hinv'.cids, hsame.datasetSize.trans hsize₁, hinv'.sys, hinv'.held⟩
  · rename_i hd
    rw [if_neg hd] at hinv₁
    rw [List.length_append] at hmax
    have hspawn : Ends (Sys.answer sched) (spawnRest cr cfg st₁) w
        (fun st' w' => SlotInv cr B Valid good (flushed ++ st₁.rawBatch) st' w' ∧
          st'.rawBatch = [] ∧ SameInput st₁ st') (fun _ _ => ¬ good) := by
      unfold spawnRest
      split
      · exact spawn_ends sched cfg hmax hinv₁
      · rename_i he
        refine Ends.pure ⟨?_, not_not.1 he, SameInput.refl st₁⟩
        rw [not_not.1 he, List.append_nil]
        exact hinv₁
    refine Ends.bind hspawn ?_
    rintro st₂ w₂ ⟨hinv₂, hraw₂, hsame₂⟩
    refine Ends.bind (drain_ends ctx sched hK (st₂.inflight + 1) (Nat.lt_succ_self _) ?_ hinv₂) ?_
    · rw [hraw₂, List.length_append]
      exact hmax
    · rintro st₃ w₃ ⟨hinv₃, h0, hraw₃, hsame₃⟩
      have hnil : w₃.inflight = [] := List.length_eq_zero_iff.1 (hinv₃.count.symm.trans h0)
      have hfill : ∀ (i : Nat) (b : Bytes), (flushed ++ st₁.rawBatch)[i]? = some b →
          st₃.blockCidSlots[i]? = some (some (shaCid cr b)) ∧
            (good → B.Holds w₃.store (shaBlock cr b)) := by
        intro i b hb
        rcases hinv₃.filled i b hb with hs | ⟨key, hkey, -⟩
        · exact hs
        · rw [hnil] at hkey
          exact absurd hkey List.not_mem_nil
      have hslots : st₃.blockCidSlots = ((flushed ++ st₁.rawBatch).map (shaCid cr)).map some := by
        apply List.ext_getElem?
        intro i
        cases hb : (flushed ++ st₁.rawBatch)[i]? with
        | some b => rw [(hfill i b hb).1, List.getElem?_map, List.getElem?_map, hb]; rfl
        | none =>
          rw [List.getElem?_map, List.getElem?_map, hb]
          apply List.getElem?_eq_none
          rw [hinv₃.slots, hraw₃, hraw₂]
          exact List.getElem?_eq_none_iff.1 hb
      have hcids : st₃.blockCidSlots.mapM slotCid =
          .ok ((flushed ++ st₁.rawBatch).map (shaCid cr)) := by
        rw [hslots, List.mapM_map]
        exact (mapM_ok fun b _ => rfl).trans (congrArg _ (List.map_id _))
      apply Ends.lift_bind hcids
      refine Ends.pure ⟨rfl, ?_, ⟨hinv₃.sys.valid, ?_⟩, fun hg b hb => ?_⟩
      · exact hsame₃.datasetSize.trans (hsame₂.datasetSize.trans hsize₁)
      · rw [hnil]
        exact fun f hf => absurd hf List.not_mem_nil
      · obtain ⟨i, hi⟩ := List.mem_iff_getElem?.1 hb
        exact (hfill i b hi).2 hg

end

end Api
