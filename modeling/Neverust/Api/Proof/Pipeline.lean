import Neverust.Api.Proof.Flights

/-!
# The two pipelines of an upload

The invariants of the pipeline that stores a batch before it goes on, and of the pipeline whose
batches are tasks. `flushed` are the raw blocks that have left the batch.

* `DedupeInv`: the CIDs so far are those of `flushed`, and the store holds them.
* `SlotInv`: the slot of each block in `flushed` holds its CID, or a task will fill it.
* `flush_ends`, `spawn_ends`, `awaitOver_ends`, `drain_ends`: the steps keep them.
-/

namespace Api

open Rust Storage Request CidBlake3

variable {cr : Crates} {B : Backend} {K : Block → Prop} {Valid : B.State → Prop} {good : Prop}

/-- The variables that the pipelines do not touch. -/
structure SameInput (st st' : UploadState) : Prop where
  currentBlock : st'.currentBlock = st.currentBlock
  datasetSize : st'.datasetSize = st.datasetSize

theorem SameInput.refl (st : UploadState) : SameInput st st := ⟨rfl, rfl⟩

theorem SameInput.trans {st st' st'' : UploadState} (h : SameInput st st')
    (h' : SameInput st' st'') : SameInput st st'' :=
  ⟨h'.currentBlock.trans h.currentBlock, h'.datasetSize.trans h.datasetSize⟩

/-! ## With deduplication -/

/-- What the loop over a batch does: all CIDs are noted, and a block is stored unless its CID was
seen. -/
theorem noteBlocks_spec :
    ∀ (blocks : List Block) (cids seen : List Cid) (toStore : List Block),
      ∃ seen' toStore',
        blocks.foldl noteBlock (cids, some seen, toStore) =
          (cids ++ blocks.map Block.cid, some seen', toStore') ∧
        (∀ c ∈ seen', c ∈ seen ∨ ∃ b ∈ blocks, b.cid = c) ∧
        (∀ b ∈ toStore', b ∈ toStore ∨ b ∈ blocks) ∧ (∀ b ∈ toStore, b ∈ toStore') ∧
        ∀ b ∈ blocks, b.cid ∈ seen ∨ ∃ b' ∈ toStore', b' ∈ blocks ∧ b'.cid = b.cid
  | [], cids, seen, toStore =>
    ⟨seen, toStore, by simp, fun c h => .inl h, fun b h => .inl h, fun b h => h,
      fun b h => absurd h List.not_mem_nil⟩
  | b :: blocks, cids, seen, toStore => by
    by_cases hb : b.cid ∈ seen
    · obtain ⟨seen', toStore', heq, hseen, hstore, hkeep, hall⟩ :=
        noteBlocks_spec blocks (cids ++ [b.cid]) seen toStore
      refine ⟨seen', toStore', ?_, fun c hc => ?_, fun x hx => ?_, hkeep, fun x hx => ?_⟩
      · rw [List.foldl_cons, noteBlock, if_pos hb, heq]
        simp
      · rcases hseen c hc with h | ⟨x, hx, rfl⟩
        · exact .inl h
        · exact .inr ⟨x, List.mem_cons_of_mem b hx, rfl⟩
      · exact (hstore x hx).imp_right (List.mem_cons_of_mem b)
      · rcases List.mem_cons.1 hx with rfl | hx
        · exact .inl hb
        · rcases hall x hx with h | ⟨y, hy, hyb, hc⟩
          · exact .inl h
          · exact .inr ⟨y, hy, List.mem_cons_of_mem b hyb, hc⟩
    · obtain ⟨seen', toStore', heq, hseen, hstore, hkeep, hall⟩ :=
        noteBlocks_spec blocks (cids ++ [b.cid]) (b.cid :: seen) (toStore ++ [b])
      have hmem : b ∈ toStore' := hkeep b (List.mem_append_right _ List.mem_cons_self)
      refine ⟨seen', toStore', ?_, fun c hc => ?_, fun x hx => ?_,
        fun x hx => hkeep x (List.mem_append_left _ hx), fun x hx => ?_⟩
      · rw [List.foldl_cons, noteBlock, if_neg hb, heq]
        simp
      · rcases hseen c hc with h | ⟨x, hx, rfl⟩
        · rcases List.mem_cons.1 h with rfl | h
          · exact .inr ⟨b, List.mem_cons_self, rfl⟩
          · exact .inl h
        · exact .inr ⟨x, List.mem_cons_of_mem b hx, rfl⟩
      · rcases hstore x hx with h | h
        · rcases List.mem_append.1 h with h | h
          · exact .inl h
          · rw [List.mem_singleton.1 h]
            exact .inr List.mem_cons_self
        · exact .inr (List.mem_cons_of_mem b h)
      · rcases List.mem_cons.1 hx with rfl | hx
        · exact .inr ⟨x, hmem, List.mem_cons_self, rfl⟩
        · rcases hall x hx with h | ⟨y, hy, hyb, hc⟩
          · rcases List.mem_cons.1 h with h | h
            · exact .inr ⟨b, hmem, List.mem_cons_self, h.symm⟩
            · exact .inl h
          · exact .inr ⟨y, hy, List.mem_cons_of_mem b hyb, hc⟩

structure DedupeInv (cr : Crates) (B : Backend) (Valid : B.State → Prop) (good : Prop)
    (flushed : List Bytes) (st : UploadState) (w : Sys B) : Prop where
  sys : SysOk cr B Valid good [] w
  cids : st.blockCids = flushed.map (shaCid cr)
  seen : ∃ seen, st.seenCids = some seen ∧ ∀ c ∈ seen, ∃ b ∈ flushed, shaCid cr b = c
  held : good → ∀ b ∈ flushed, B.Holds w.store (shaBlock cr b)

section
variable (ctx : Context cr B K Valid good) (sched : Schedule)
include ctx

/-- **The batch is stored**: its blocks leave the batch. -/
theorem flush_ends (workers : Nat) {flushed : List Bytes} {st : UploadState} {w : Sys B}
    (hK : good → ∀ b ∈ flushed ++ st.rawBatch, K (shaBlock cr b))
    (h : DedupeInv cr B Valid good flushed st w) :
    Ends (Sys.answer sched) (flushUploadRawBatch cr workers st) w
      (fun st' w' => DedupeInv cr B Valid good (flushed ++ st.rawBatch) st' w' ∧
        st'.rawBatch = [] ∧ SameInput st st')
      (fun _ _ => ¬ good) := by
  obtain ⟨seen, hseen, hin⟩ := h.seen
  have hnone : good → ∀ b ∈ ([] : List Bytes), K (shaBlock cr b) :=
    fun _ b hb => absurd hb List.not_mem_nil
  unfold flushUploadRawBatch
  split
  · rename_i hnil
    refine Ends.pure ⟨?_, hnil, SameInput.refl st⟩
    rw [hnil, List.append_nil]
    exact h
  · obtain ⟨seen', toStore, heq, hseen', hstore, -, hall⟩ :=
      noteBlocks_spec (st.rawBatch.map (shaBlock cr)) st.blockCids seen []
    have hbatch : ∀ b ∈ toStore, ∃ d ∈ st.rawBatch, b = shaBlock cr d := by
      intro b hb
      rcases hstore b hb with hb | hb
      · exact absurd hb List.not_mem_nil
      · obtain ⟨d, hd, rfl⟩ := List.mem_map.1 hb
        exact ⟨d, hd, rfl⟩
    have hKs : good → ∀ b ∈ toStore, K b := by
      intro hg b hb
      obtain ⟨d, hd, rfl⟩ := hbatch b hb
      exact hK hg d (List.mem_append_right _ hd)
    -- the invariant once the new blocks are held
    have hdone : ∀ w' : Sys B, SysOk cr B Valid good [] w' → Keeps B Valid good w.store w'.store →
        (good → ∀ b ∈ toStore, B.Holds w'.store b) →
        DedupeInv cr B Valid good (flushed ++ st.rawBatch)
          { st with rawBatch := [], blockCids := flushed.map (shaCid cr) ++
              (st.rawBatch.map (shaBlock cr)).map Block.cid, seenCids := some seen' } w' := by
      intro w' hsys hkeep hheld
      refine ⟨hsys, ?_, ⟨seen', rfl, fun c hc => ?_⟩, fun hg b hb => ?_⟩
      · rw [List.map_append, List.map_map]
        rfl
      · rcases hseen' c hc with hc | ⟨x, hx, rfl⟩
        · obtain ⟨b, hb, hbc⟩ := hin c hc
          exact ⟨b, List.mem_append_left _ hb, hbc⟩
        · obtain ⟨d, hd, rfl⟩ := List.mem_map.1 hx
          exact ⟨d, List.mem_append_right _ hd, rfl⟩
      · rcases List.mem_append.1 hb with hbf | hbr
        · exact hkeep.held hg _ (h.held hg b hbf)
        · -- a block that is not stored has the CID of one that is held, so it is that block
          rcases hall (shaBlock cr b) (List.mem_map_of_mem hbr) with hc | ⟨y, hy, -, hc⟩
          · obtain ⟨a, ha, hac⟩ := hin _ hc
            have hab := ctx.consistent hg _ _ (hK hg a (List.mem_append_left _ ha)) (hK hg b hb) hac
            rw [← hab]
            exact hkeep.held hg _ (h.held hg a ha)
          · rw [← ctx.consistent hg _ _ (hKs hg y hy) (hK hg b hb) hc]
            exact hheld hg y hy
    rw [h.cids] at heq
    rw [hashRawBlocksParallel_eq ctx.standard, hseen, h.cids]
    apply Ends.lift_bind rfl
    rw [heq]
    dsimp only
    by_cases hts : toStore = []
    · rw [if_neg (not_not.2 hts)]
      refine Ends.pure ⟨hdone _ h.sys (Keeps.refl h.sys.valid) ?_, rfl, ⟨rfl, rfl⟩⟩
      intro _ b hb
      rw [hts] at hb
      exact absurd hb List.not_mem_nil
    · rw [if_pos hts]
      refine Ends.bind (putMany_ends ctx hnone sched hKs h.sys) ?_
      rintro - w'' ⟨hsys, hl, hheld⟩
      exact Ends.pure ⟨hdone w'' hsys hl.keeps hheld, rfl, ⟨rfl, rfl⟩⟩

end

/-! ## Without deduplication -/

structure SlotInv (cr : Crates) (B : Backend) (Valid : B.State → Prop) (good : Prop)
    (flushed : List Bytes) (st : UploadState) (w : Sys B) : Prop where
  sys : SysOk cr B Valid good flushed w
  slots : st.blockCidSlots.length = flushed.length + st.rawBatch.length
  start : st.nextBatchStartIdx = flushed.length
  count : st.inflight = w.inflight.length
  filled : ∀ i b, flushed[i]? = some b →
    (st.blockCidSlots[i]? = some (some (shaCid cr b)) ∧ (good → B.Holds w.store (shaBlock cr b))) ∨
      ∃ key ∈ w.inflight.map Flight.key, key.1 ≤ i ∧ i < key.1 + key.2

/-- What the slots hold after a batch has been put in. -/
theorem getElem?_place_batch {flushed raw : List Bytes} {start : Nat} {slots : List (Option Cid)}
    (hat : ∀ i b, raw[i]? = some b → flushed[start + i]? = some b) {i : Nat} {b : Bytes}
    (hi : i < slots.length) (hb : flushed[i]? = some b) :
    (Slots.place slots (assignments start (raw.map (shaCid cr))))[i]? =
      if start ≤ i ∧ i < start + raw.length then some (some (shaCid cr b)) else slots[i]? := by
  have hg : ∀ p ∈ assignments start (raw.map (shaCid cr)),
      p.2 = (fun j => shaCid cr (flushed.getD j [])) p.1 := by
    intro p hp
    obtain ⟨hle, hp⟩ := mem_assignments.1 hp
    rw [List.getElem?_map, Option.map_eq_some_iff] at hp
    obtain ⟨d, hd, hp⟩ := hp
    have hf := hat _ d hd
    rw [show start + (p.1 - start) = p.1 by omega] at hf
    show p.2 = shaCid cr (flushed.getD p.1 [])
    rw [List.getD_eq_getElem?_getD, hf, ← hp]
    rfl
  have hmem : i ∈ (assignments start (raw.map (shaCid cr))).map Prod.fst ↔
      start ≤ i ∧ i < start + raw.length := by
    rw [List.mem_map]
    constructor
    · rintro ⟨p, hp, rfl⟩
      obtain ⟨hle, hp⟩ := mem_assignments.1 hp
      have hlt := (List.getElem?_eq_some_iff.1 hp).1
      rw [List.length_map] at hlt
      exact ⟨hle, by omega⟩
    · rintro ⟨hle, hlt⟩
      have hlt' : i - start < raw.length := by omega
      refine ⟨(i, shaCid cr raw[i - start]), ?_, rfl⟩
      refine mem_assignments.2 ⟨hle, ?_⟩
      rw [List.getElem?_map, List.getElem?_eq_getElem (by omega)]
      rfl
  rw [Slots.getElem?_place (fun j => shaCid cr (flushed.getD j [])) _ _ hg hi]
  simp only [hmem, List.getD_eq_getElem?_getD, hb, Option.getD_some]

section
variable (ctx : Context cr B K Valid good) (sched : Schedule) {flushed : List Bytes}
  (hK : good → ∀ b ∈ flushed, K (shaBlock cr b))
include ctx hK

/-- **A wait for a task**: there is none left, or its CIDs go into their slots, or it failed. -/
theorem next_ok {st : UploadState} {w : Sys B} (hmax : flushed.length + st.rawBatch.length < usizeSize)
    (h : SlotInv cr B Valid good flushed st w) :
    (st.inflight = 0 ∧ (Sys.answer sched .next w).1 = none ∧
        SlotInv cr B Valid good flushed st (Sys.answer sched .next w).2) ∨
      (∃ start len r, (Sys.answer sched .next w).1 = some (start, len, r) ∧
        ((∃ st', complete st start len r = .ok st' ∧ st'.inflight + 1 = st.inflight ∧
            st'.rawBatch = st.rawBatch ∧ SameInput st st' ∧
            SlotInv cr B Valid good flushed st' (Sys.answer sched .next w).2) ∨
          (¬ good ∧ ∃ e, complete st start len r = .error e))) := by
  obtain ⟨hi, hl⟩ := idle_ok ctx hK sched h.sys
  have hlen := hl.length_inflight
  show (_ ∧ ((w.idle sched).takeNext sched).1 = none ∧ SlotInv cr B Valid good flushed st
    ((w.idle sched).takeNext sched).2) ∨ _
  rcases takeNext_ok ctx hK sched hi with ⟨hnil, heq⟩ |
    ⟨j, f, raw, r, s', hf, hexp, hle, hat, heq, hr, hkeep⟩
  · refine .inl ⟨?_, by rw [heq], ?_⟩
    · rw [h.count, ← hlen, hnil]
      rfl
    · rw [heq]
      refine ⟨hi, h.slots, h.start, by rw [h.count, ← hlen], fun i b hb => ?_⟩
      rw [hl.keys]
      exact (h.filled i b hb).imp_left fun hs => ⟨hs.1, fun hg => hl.keeps.held hg _ (hs.2 hg)⟩
  · refine .inr ⟨f.startIdx, f.expectedLen, r, by
      show ((w.idle sched).takeNext sched).1 = _
      rw [heq], ?_⟩
    show (∃ st', _ ∧ _ ∧ _ ∧ _ ∧ SlotInv cr B Valid good flushed st'
      ((w.idle sched).takeNext sched).2) ∨ _
    rw [heq]
    rcases hr with ⟨rfl, hheld⟩ | ⟨hng, e, rfl⟩
    · refine .inl ⟨{ st with
        blockCidSlots := Slots.place st.blockCidSlots
          (assignments f.startIdx (raw.map (shaCid cr)))
        inflight := st.inflight - 1 }, ?_, ?_, rfl, ⟨rfl, rfl⟩, ?_⟩
      · have hfill : fillSlots f.startIdx st.blockCidSlots (raw.map (shaCid cr)) = .ok _ :=
          fillSlots_eq (by rw [List.length_map, h.slots]; omega) (by rw [h.slots]; exact hmax)
        rw [complete, if_neg (by rw [List.length_map, hexp]; exact not_not.2 rfl), hfill]
        rfl
      · show st.inflight - 1 + 1 = st.inflight
        have := (List.getElem?_eq_some_iff.1 hf).1
        rw [h.count]
        omega
      · have hjlt := (List.getElem?_eq_some_iff.1 hf).1
        refine ⟨⟨hkeep.valid, fun g hg => ?_⟩, ?_, h.start, ?_, fun i b hb => ?_⟩
        · exact (hi.flights g (List.mem_of_mem_eraseIdx hg)).mono hkeep
        · show (Slots.place _ _).length = _
          rw [Slots.length_place]
          exact h.slots
        · show st.inflight - 1 = ((w.idle sched).inflight.eraseIdx j).length
          rw [List.length_eraseIdx_of_lt hjlt, h.count, hlen]
        · have hilt : i < st.blockCidSlots.length := by
            have := (List.getElem?_eq_some_iff.1 hb).1
            rw [h.slots]
            omega
          show ((Slots.place _ _)[i]? = _ ∧ (good → B.Holds s' _)) ∨
            ∃ key ∈ ((w.idle sched).inflight.eraseIdx j).map Flight.key, _
          rw [getElem?_place_batch hat hilt hb]
          by_cases hin : f.startIdx ≤ i ∧ i < f.startIdx + raw.length
          · -- the block of slot `i` is in the batch of the task
            rw [if_pos hin]
            refine .inl ⟨rfl, fun hg => ?_⟩
            have hd := hat (i - f.startIdx) _ (List.getElem?_eq_getElem (by omega))
            rw [show f.startIdx + (i - f.startIdx) = i by omega, hb] at hd
            rw [Option.some.inj hd]
            exact hheld hg _ (List.getElem_mem _)
          · rw [if_neg hin]
            rcases h.filled i b hb with hs | ⟨key, hkey, hrange⟩
            · exact .inl ⟨hs.1, fun hg => hkeep.held hg _ (hl.keeps.held hg _ (hs.2 hg))⟩
            · rw [← hl.keys] at hkey
              obtain ⟨g, hg, rfl⟩ := List.mem_map.1 hkey
              obtain ⟨m, hm⟩ := List.mem_iff_getElem?.1 hg
              refine .inr ⟨g.key, List.mem_map_of_mem ?_, hrange⟩
              refine List.mem_eraseIdx_iff_getElem?.2 ⟨m, ?_, hm⟩
              rintro rfl
              rw [hf] at hm
              cases hm
              exact hin (by rw [← hexp]; exact hrange)
    · refine .inr ⟨hng, ?_⟩
      cases e with
      | err e => exact ⟨_, rfl⟩
      | panic p => exact ⟨_, rfl⟩
      | fuel => exact ⟨_, rfl⟩

/-- The waits for tasks while more than `maxInflight` are left. -/
theorem awaitOver_ends {maxInflight : Nat} :
    ∀ (fuel : Nat) {st : UploadState} {w : Sys B}, st.inflight ≤ fuel →
      flushed.length + st.rawBatch.length < usizeSize →
      SlotInv cr B Valid good flushed st w →
      Ends (Sys.answer sched) (awaitOver maxInflight fuel st) w
        (fun st' w' => SlotInv cr B Valid good flushed st' w' ∧ st'.rawBatch = st.rawBatch ∧
          SameInput st st')
        (fun _ _ => ¬ good)
  | 0, st, w, hfuel, _, h => by
    rw [awaitOver, if_pos (by omega)]
    exact Ends.pure ⟨h, rfl, SameInput.refl st⟩
  | fuel + 1, st, w, hfuel, hmax, h => by
    rw [awaitOver]
    split
    · exact Ends.pure ⟨h, rfl, SameInput.refl st⟩
    · rename_i hover
      apply Ends.request_bind
      rcases next_ok ctx sched hK hmax h with ⟨h0, -⟩ | ⟨start, len, r, heq, hr⟩
      · omega
      · rw [heq]
        rcases hr with ⟨st', hok, hcount, hraw, hsame, h'⟩ | ⟨hng, e, he⟩
        · apply Ends.lift_bind hok
          refine Ends.mono (awaitOver_ends fuel (by omega) (by rw [hraw]; exact hmax) h') ?_
          rintro st'' w'' ⟨hinv, hraw', hsame'⟩
          exact ⟨hinv, hraw'.trans hraw, hsame.trans hsame'⟩
        · exact Ends.lift_bind_error he hng

/-- The waits for all tasks. -/
theorem drain_ends :
    ∀ (fuel : Nat) {st : UploadState} {w : Sys B}, st.inflight < fuel →
      flushed.length + st.rawBatch.length < usizeSize →
      SlotInv cr B Valid good flushed st w →
      Ends (Sys.answer sched) (drain fuel st) w
        (fun st' w' => SlotInv cr B Valid good flushed st' w' ∧ st'.inflight = 0 ∧
          st'.rawBatch = st.rawBatch ∧ SameInput st st')
        (fun _ _ => ¬ good)
  | 0, st, w, hfuel, _, h => by omega
  | fuel + 1, st, w, hfuel, hmax, h => by
    rw [drain]
    apply Ends.request_bind
    rcases next_ok ctx sched hK hmax h with ⟨h0, heq, h'⟩ | ⟨start, len, r, heq, hr⟩
    · rw [heq]
      exact Ends.pure ⟨h', h0, rfl, SameInput.refl st⟩
    · rw [heq]
      rcases hr with ⟨st', hok, hcount, hraw, hsame, h'⟩ | ⟨hng, e, he⟩
      · apply Ends.lift_bind hok
        refine Ends.mono (drain_ends fuel (by omega) (by rw [hraw]; exact hmax) h') ?_
        rintro st'' w'' ⟨hinv, h0, hraw', hsame'⟩
        exact ⟨hinv, h0, hraw'.trans hraw, hsame.trans hsame'⟩
      · exact Ends.lift_bind_error he hng

omit ctx hK in
/-- **The batch becomes a task.** -/
theorem spawn_ends (cfg : UploadConfig) {st : UploadState} {w : Sys B}
    (hmax : flushed.length + st.rawBatch.length < usizeSize)
    (h : SlotInv cr B Valid good flushed st w) :
    Ends (Sys.answer sched) (spawnBatch cr cfg st) w
      (fun st' w' => SlotInv cr B Valid good (flushed ++ st.rawBatch) st' w' ∧ st'.rawBatch = [] ∧
        SameInput st st')
      (fun _ _ => ¬ good) := by
  apply Ends.request_bind
  refine Ends.pure ⟨⟨⟨h.sys.valid, fun f hf => ?_⟩, ?_, ?_, ?_, fun i b hb => ?_⟩, rfl, ⟨rfl, rfl⟩⟩
  · rcases List.mem_append.1 hf with hf | hf
    · exact (h.sys.flights f hf).append st.rawBatch
    · rw [List.mem_singleton.1 hf]
      refine ⟨st.rawBatch, rfl, ?_, fun i b hb => ?_, .inl ⟨_, rfl⟩⟩
      · rw [List.length_append, h.start]
      · show (flushed ++ st.rawBatch)[st.nextBatchStartIdx + i]? = some b
        rw [h.start, List.getElem?_append_right (by omega), Nat.add_sub_cancel_left]
        exact hb
  · show st.blockCidSlots.length = (flushed ++ st.rawBatch).length + 0
    rw [h.slots, List.length_append, Nat.add_zero]
  · show min (st.nextBatchStartIdx + st.rawBatch.length) (usizeSize - 1) = _
    rw [h.start, List.length_append]
    omega
  · show st.inflight + 1 = (w.inflight ++ _).length
    rw [h.count, List.length_append]
    rfl
  · show (st.blockCidSlots[i]? = _ ∧ _) ∨ ∃ key ∈ (w.inflight ++ _).map Flight.key, _
    by_cases hi : i < flushed.length
    · rw [List.getElem?_append_left hi] at hb
      rcases h.filled i b hb with hs | ⟨key, hkey, hrange⟩
      · exact .inl hs
      · exact .inr ⟨key, by rw [List.map_append]; exact List.mem_append_left _ hkey, hrange⟩
    · have hlt := (List.getElem?_eq_some_iff.1 hb).1
      rw [List.length_append] at hlt
      refine .inr ⟨(st.nextBatchStartIdx, st.rawBatch.length), ?_, ?_, ?_⟩
      · rw [List.map_append]
        exact List.mem_append_right _ List.mem_cons_self
      · show st.nextBatchStartIdx ≤ i
        rw [h.start]
        omega
      · show i < st.nextBatchStartIdx + st.rawBatch.length
        rw [h.start]
        omega

end

/-! ## Both pipelines -/

/-- The invariant of an upload whose complete raw blocks so far are `blocks`. -/
def Inv (cr : Crates) (B : Backend) (Valid : B.State → Prop) (good : Prop) (cfg : UploadConfig)
    (blocks : List Bytes) (st : UploadState) (w : Sys B) : Prop :=
  ∃ flushed, blocks = flushed ++ st.rawBatch ∧
    if cfg.dedupeBlocks then DedupeInv cr B Valid good flushed st w
    else SlotInv cr B Valid good flushed st w

section
variable (ctx : Context cr B K Valid good) (sched : Schedule) (cfg : UploadConfig)
  {blocks : List Bytes} (hK : good → ∀ b ∈ blocks, K (shaBlock cr b))
  (hmax : blocks.length < usizeSize)

theorem inv_new {s : B.State} (hs : good → Valid s) :
    Inv cr B Valid good cfg [] (UploadState.new cfg) (Sys.start s) := by
  refine ⟨[], rfl, ?_⟩
  split
  · rename_i hd
    refine ⟨SysOk.start hs, rfl, ⟨[], ?_, fun c hc => absurd hc List.not_mem_nil⟩,
      fun _ b hb => absurd hb List.not_mem_nil⟩
    show (if cfg.dedupeBlocks then some [] else none) = some []
    rw [if_pos hd]
  · exact ⟨SysOk.start hs, rfl, rfl, rfl, fun i b hb => by simp at hb⟩

/-- A complete block goes into the batch. -/
theorem inv_pushBlock {st : UploadState} {w : Sys B} (h : Inv cr B Valid good cfg blocks st w) :
    Inv cr B Valid good cfg (blocks ++ [st.currentBlock]) (pushBlock cfg st) w := by
  obtain ⟨flushed, heq, hinv⟩ := h
  refine ⟨flushed, ?_, ?_⟩
  · show _ = flushed ++ (st.rawBatch ++ [st.currentBlock])
    rw [heq, List.append_assoc]
  · split
    · rename_i hd
      rw [if_pos hd] at hinv
      exact ⟨hinv.sys, hinv.cids, hinv.seen, hinv.held⟩
    · rename_i hd
      rw [if_neg hd] at hinv
      have hslots : (pushBlock cfg st).blockCidSlots = st.blockCidSlots ++ [none] := if_neg hd
      refine ⟨hinv.sys, ?_, hinv.start, hinv.count, fun i b hb => ?_⟩
      · rw [hslots, List.length_append, hinv.slots]
        show _ = flushed.length + (st.rawBatch ++ [st.currentBlock]).length
        rw [List.length_append]
        rfl
      · have hi := (List.getElem?_eq_some_iff.1 hb).1
        rw [hslots, List.getElem?_append_left (by rw [hinv.slots]; omega)]
        exact hinv.filled i b hb

/-- Only the raw input changes. -/
theorem Inv.congr {st st' : UploadState} {w : Sys B} (h : Inv cr B Valid good cfg blocks st w)
    (hst : { st' with currentBlock := st.currentBlock, datasetSize := st.datasetSize } = st) :
    Inv cr B Valid good cfg blocks st' w := by
  obtain ⟨flushed, heq, hinv⟩ := h
  rw [← hst] at heq hinv
  refine ⟨flushed, heq, ?_⟩
  split
  · rename_i hd
    rw [if_pos hd] at hinv
    exact ⟨hinv.sys, hinv.cids, hinv.seen, hinv.held⟩
  · rename_i hd
    rw [if_neg hd] at hinv
    exact ⟨hinv.sys, hinv.slots, hinv.start, hinv.count, hinv.filled⟩

include ctx hK hmax in
/-- **A batch that is full is committed.** -/
theorem commit_ends {st : UploadState} {w : Sys B} (h : Inv cr B Valid good cfg blocks st w) :
    Ends (Sys.answer sched) (commitBatch cr cfg st) w
      (fun st' w' => Inv cr B Valid good cfg blocks st' w' ∧ SameInput st st')
      (fun _ _ => ¬ good) := by
  have h0 := h
  obtain ⟨flushed, rfl, hinv⟩ := h
  unfold commitBatch
  split
  · split
    · rename_i hd
      rw [if_pos hd] at hinv
      refine Ends.mono (flush_ends ctx sched cfg.hashWorkers hK hinv) ?_
      rintro st' w' ⟨hinv', hraw, hsame⟩
      exact ⟨⟨_, by rw [hraw, List.append_nil], by rw [if_pos hd]; exact hinv'⟩, hsame⟩
    · rename_i hd
      rw [if_neg hd] at hinv
      rw [List.length_append] at hmax
      refine Ends.bind (spawn_ends sched cfg hmax hinv) ?_
      rintro st' w' ⟨hinv', hraw, hsame⟩
      refine Ends.mono (awaitOver_ends ctx sched hK st'.inflight (Nat.le_refl _) ?_ hinv') ?_
      · rw [hraw, List.length_append]
        exact hmax
      · rintro st'' w'' ⟨hinv'', hraw', hsame'⟩
        refine ⟨⟨_, ?_, by rw [if_neg hd]; exact hinv''⟩, hsame.trans hsame'⟩
        rw [hraw', hraw, List.append_nil]
  · exact Ends.pure ⟨h0, SameInput.refl st⟩

end

end Api
