import Neverust.Storage.DeltaFlat.Proof.Scan

/-!
# The DeltaFlat store

`put_many` writes each lane that gets a block once and leaves the others alone.

* `putMany_spec`: what happened to each lane (`LanePut`), and where a call failed.
* `PutDone.storeHolds`, `PutFailed.storeHolds`: the contents of the lanes afterwards.
-/

namespace Storage.DeltaFlat

open Io Rust Bytes LinearHash

/-- The lane a block belongs to. -/
def homeOf (cr : Crates) (st : Store) (block : Block) : LaneDir :=
  laneOf (hashOf cr) st (classForLen block.data.length).1 (cr.cidToBytes block.cid)

/-- The blocks of a batch that belong to a lane, with the bytes of their CIDs. -/
def blocksIn (cr : Crates) (st : Store) (d : LaneDir) (blocks : List Block) :
    List (Block × Bytes) :=
  (blocks.filter fun block => homeOf cr st block = d).map fun block =>
    (block, cr.cidToBytes block.cid)

/-- The contents of the lanes after a batch. -/
def putStore (cr : Crates) (st : Store) (C : LaneDir → List Item) (blocks : List Block) :
    LaneDir → List Item :=
  fun d => putContents st.skipExistsCheck (C d) ((blocksIn cr st d blocks).map itemOf)

/-- The files of the lane are the same in both worlds. -/
def SameFiles (d : LaneDir) (w w' : Disk) : Prop := ∀ f, w'.files (d, f) = w.files (d, f)

/-- What a call of `put_many` does to a lane: nothing, or one round. -/
inductive LanePut (H : Bytes → SplitHash) (st : Store) (d : LaneDir) (bs : List (Block × Bytes))
    (w w' : Disk) : Prop
  | idle (h : bs = []) (hf : SameFiles d w w')
  | put (w1 w2 : Disk) (h1 : SameFiles d w w1) (hn : w1.faults = w.faults)
      (hr : putLane H st d bs w1 = .ok () w2) (h2 : SameFiles d w2 w')

section
variable {cr : Crates} {st : Store} {d : LaneDir} {w w' w'' : Disk} {C : LaneDir → List Item}
  {H : Bytes → SplitHash} {bs : List (Block × Bytes)}

theorem SameFiles.refl (d : LaneDir) (w : Disk) : SameFiles d w w := fun _ => rfl

theorem SameFiles.trans (h : SameFiles d w w') (h' : SameFiles d w' w'') : SameFiles d w w'' :=
  fun f => (h' f).trans (h f)

theorem SameFiles.sameLane (h : SameFiles d w w') : SameLane d w w' := .of_files h

theorem SameFiles.of_frame {d' : LaneDir} (h : Frame (InLane d') w w') (hne : d ≠ d') :
    SameFiles d w w' :=
  fun _ => h.files _ hne

theorem LanePut.sameFiles (h : LanePut H st d bs w w') (hs : SameFiles d w' w'') :
    LanePut H st d bs w w'' := by
  cases h with
  | idle h hf => exact .idle h (hf.trans hs)
  | put w1 w2 h1 hn hr h2 => exact .put w1 w2 h1 hn hr (h2.trans hs)

/-! ## Bins -/

/-- Different bins have different directories. -/
theorem laneDir_binOf_inj {b b' : Block × Bytes}
    (h : laneDir st (binOf H st b).1 (binOf H st b).2 =
      laneDir st (binOf H st b').1 (binOf H st b').2) : binOf H st b = binOf H st b' := by
  unfold laneDir at h
  by_cases hl : st.laneCount ≤ 1
  · rw [if_pos hl, if_pos hl, LaneDir.classDir.injEq] at h
    refine Prod.ext h ?_
    simp only [binOf, laneForCid, if_pos hl]
  · rw [if_neg hl, if_neg hl, LaneDir.lane.injEq] at h
    exact Prod.ext h.1 h.2

theorem nodup_addBin {active : List (Nat × Nat)} (h : active.Nodup) (bins : List (Nat × Nat)) :
    (bins.foldl addBin active).Nodup := by
  induction bins generalizing active with
  | nil => exact h
  | cons bin bins ih =>
    refine ih ?_
    unfold addBin
    split
    · exact h
    · rename_i hnew
      rw [List.nodup_append]
      refine ⟨h, by simp, fun a ha b hb hab => ?_⟩
      rw [List.mem_singleton] at hb
      rw [hab, hb] at ha
      exact hnew ha

theorem mem_addBin {active : List (Nat × Nat)} {bin : Nat × Nat} (bins : List (Nat × Nat)) :
    bin ∈ bins.foldl addBin active ↔ bin ∈ active ∨ bin ∈ bins := by
  induction bins generalizing active with
  | nil => simp
  | cons b bins ih =>
    rw [List.foldl_cons, ih, List.mem_cons, addBin]
    split
    · rename_i hb
      constructor
      · exact fun h => h.imp_right .inr
      · rintro (h | rfl | h)
        · exact .inl h
        · exact .inl hb
        · exact .inr h
    · rw [List.mem_append, List.mem_singleton, or_assoc]

/-- The blocks of a bin are those that belong to its lane. -/
theorem filter_bin_eq (blocks : List Block) (b : Block × Bytes) :
    ((blocks.map fun block => (block, cr.cidToBytes block.cid)).filter fun x =>
      binOf (hashOf cr) st x = binOf (hashOf cr) st b) =
    blocksIn cr st (laneDir st (binOf (hashOf cr) st b).1 (binOf (hashOf cr) st b).2) blocks := by
  rw [blocksIn, List.filter_map]
  congr 1
  refine List.filter_congr fun x _ => ?_
  have hiff : binOf (hashOf cr) st (x, cr.cidToBytes x.cid) = binOf (hashOf cr) st b ↔
      homeOf cr st x = laneDir st (binOf (hashOf cr) st b).1 (binOf (hashOf cr) st b).2 :=
    ⟨fun h => by rw [← h]; rfl, fun h => laneDir_binOf_inj h⟩
  exact decide_eq_decide.2 hiff

/-! ## A call of `put_many` -/

/-- A call that went through. -/
structure PutDone (cr : Crates) (st : Store) (blocks : List Block) (w w' : Disk) : Prop where
  frame : Frame (fun _ => True) w w'
  settled : (∀ d, ¬ Unsettled d w) → ∀ d, ¬ Unsettled d w'
  lanes : ∀ d, LanePut (hashOf cr) st d (blocksIn cr st d blocks) w w'

/-- A call that failed: at the verification, or in the round of a lane. -/
inductive PutFailed (cr : Crates) (st : Store) (blocks : List Block) (w : Disk)
    (e : StorageError) (w' : Disk) : Prop
  | verify (hw : w' = w) (h : verifyBlocks cr st.verifyBlocksOnWrite blocks = .error e)
  | lane (d : LaneDir) (w1 : Disk) (hbs : blocksIn cr st d blocks ≠ [])
      (hd : SameFiles d w w1) (hn : w1.faults = w.faults)
      (hs : (∀ d', ¬ Unsettled d' w) → ∀ d', ¬ Unsettled d' w1) (hf : Frame (fun _ => True) w w')
      (hr : putLane (hashOf cr) st d (blocksIn cr st d blocks) w1 = .error e w')
      (ho : ∀ d', d' ≠ d → SameFiles d' w w' ∨
        LanePut (hashOf cr) st d' (blocksIn cr st d' blocks) w w')

/-- **`put_many`**: a round for each lane that gets a block. -/
theorem putMany_spec (blocks : List Block) (hS : StoreHolds (hashOf cr) st w C) :
    wp (putMany cr st blocks) (fun _ w' => PutDone cr st blocks w w')
      (PutFailed cr st blocks w) w := by
  refine wp_bind (wp_lift (fun _ _ => ?_) fun e he => .verify rfl he)
  set bs := blocks.map fun block => (block, cr.cidToBytes block.cid) with hbs
  -- `rest` are the bins to come: their lanes are untouched, the others are done.
  let I : List (Nat × Nat) → Unit → Disk → Prop := fun rest _ w1 =>
    rest.Nodup ∧ (∀ bin ∈ rest, ∃ b ∈ bs, binOf (hashOf cr) st b = bin) ∧
    Frame (fun _ => True) w w1 ∧ ((∀ d, ¬ Unsettled d w) → ∀ d, ¬ Unsettled d w1) ∧
    (∀ bin ∈ rest, SameFiles (laneDir st bin.1 bin.2) w w1) ∧
    ∀ d, (∀ bin ∈ rest, laneDir st bin.1 bin.2 ≠ d) →
      LanePut (hashOf cr) st d (blocksIn cr st d blocks) w w1
  have hinit : I ((bs.map (binOf (hashOf cr) st)).foldl addBin []) () w := by
    refine ⟨nodup_addBin .nil _, fun bin hbin => ?_, Frame.refl _ w, id, fun _ _ => .refl _ w,
      fun d hd => .idle ?_ (.refl d w)⟩
    · rw [mem_addBin] at hbin
      exact List.mem_map.1 (hbin.resolve_left List.not_mem_nil)
    · rw [blocksIn, List.map_eq_nil_iff, List.filter_eq_nil_iff]
      intro block hblock hhome
      refine hd _ ((mem_addBin _).2 (.inr (List.mem_map.2 ⟨_, List.mem_map.2 ⟨block, hblock, rfl⟩,
        rfl⟩))) ?_
      exact of_decide_eq_true hhome
  refine wp_mono (wp_foldlM I (fun bin rest u w1 hI => ?_) _ () w hinit) (fun _ w' hI => ?_)
    fun _ _ h => h
  case refine_2 =>
    obtain ⟨-, -, hframe, hset, -, hdone⟩ := hI
    exact ⟨hframe, hset, fun d => hdone d fun _ h => absurd h List.not_mem_nil⟩
  obtain ⟨hnodup, hmem, hframe, hset, hsame, hdone⟩ := hI
  obtain ⟨b, hb, rfl⟩ := hmem _ (.head _)
  rw [List.nodup_cons] at hnodup
  rw [filter_bin_eq]
  set d0 := laneDir st (binOf (hashOf cr) st b).1 (binOf (hashOf cr) st b).2 with hd0
  have hs0 : SameFiles d0 w w1 := hsame _ (.head _)
  have hother : ∀ bin ∈ rest, laneDir st bin.1 bin.2 ≠ d0 := by
    intro bin hbin heq
    obtain ⟨b', -, rfl⟩ := hmem _ (.tail _ hbin)
    exact hnodup.1 (laneDir_binOf_inj heq ▸ hbin)
  obtain ⟨l, hl, hm⟩ := hs0.sameLane.laneHolds (hS d0)
  refine wp_mono (wp_and (wp_run _) (putLane_spec (blocksIn cr st d0 blocks) hl))
    (fun _ w2 h2 => ?_) fun e w2 h2 => ?_
  · obtain ⟨hr, hfill⟩ := h2
    refine ⟨hnodup.2, fun bin hbin => hmem bin (.tail _ hbin),
      hframe.trans (hfill.frame.mono fun _ _ => trivial), fun h => hfill.settled (hset h),
      fun bin hbin => ?_, fun d hd => ?_⟩
    · exact (hsame bin (.tail _ hbin)).trans (.of_frame hfill.frame (hother bin hbin))
    · by_cases hdd : d = d0
      · subst hdd
        exact .put w1 w2 hs0 hframe.faults hr (.refl _ w2)
      · refine (hdone d fun bin hbin => ?_).sameFiles (.of_frame hfill.frame hdd)
        rcases List.mem_cons.1 hbin with rfl | hbin
        · exact Ne.symm hdd
        · exact hd bin hbin
  · obtain ⟨hr, hfill⟩ := h2
    refine .lane d0 w1 ?_ hs0 hframe.faults hset (hframe.trans (hfill.frame.mono fun _ _ => trivial)) hr
      fun d hdd => ?_
    · obtain ⟨block, hblock, rfl⟩ := List.mem_map.1 hb
      intro hnil
      rw [blocksIn, List.map_eq_nil_iff, List.filter_eq_nil_iff] at hnil
      exact hnil block hblock (decide_eq_true rfl)
    · by_cases hrest : ∃ bin ∈ rest, laneDir st bin.1 bin.2 = d
      · obtain ⟨bin, hbin, rfl⟩ := hrest
        exact .inl ((hsame bin (.tail _ hbin)).trans (.of_frame hfill.frame hdd))
      · refine .inr ((hdone d fun bin hbin => ?_).sameFiles (.of_frame hfill.frame hdd))
        rcases List.mem_cons.1 hbin with rfl | hbin
        · exact Ne.symm hdd
        · exact fun heq => hrest ⟨bin, hbin, heq⟩

/-! ## The contents afterwards -/

theorem LanePut.laneHolds {m : List Item} (hd : LaneHolds H st d w m)
    (h : LanePut H st d bs w w') :
    LaneHolds H st d w' (putContents st.skipExistsCheck m (bs.map itemOf)) := by
  cases h with
  | idle h hf =>
    rw [h]
    exact hf.sameLane.laneHolds hd
  | put w1 w2 h1 hn hr h2 =>
    obtain ⟨l, hl, hm⟩ := h1.sameLane.laneHolds hd
    exact h2.sameLane.laneHolds ((wp_ok (putLane_spec bs hl) hr).laneHolds hl hm)

/-- **After a call** the blocks are in their lanes. -/
theorem PutDone.storeHolds {blocks : List Block} (hS : StoreHolds (hashOf cr) st w C)
    (h : PutDone cr st blocks w w') :
    StoreHolds (hashOf cr) st w' (putStore cr st C blocks) :=
  fun d => (h.lanes d).laneHolds (hS d)

/-- **After a call that failed** each lane has its old contents or the new ones, if no lane is left
with a page of the index newer than its control record. -/
theorem PutFailed.storeHolds {blocks : List Block} {e : StorageError}
    (hS : StoreHolds (hashOf cr) st w C) (h : PutFailed cr st blocks w e w')
    (hset : ∀ d, ¬ Unsettled d w') :
    ∃ C', StoreHolds (hashOf cr) st w' C' ∧
      ∀ d, C' d = C d ∨ C' d = putStore cr st C blocks d := by
  have hlane : ∀ d, ∃ m, LaneHolds (hashOf cr) st d w' m ∧
      (m = C d ∨ m = putStore cr st C blocks d) := by
    intro d
    cases h with
    | verify hw _ => exact ⟨C d, hw ▸ hS d, .inl rfl⟩
    | lane d0 w1 hbs hd hn _ hf hr ho =>
      by_cases hdd : d = d0
      · subst hdd
        obtain ⟨l, hl, hm⟩ := hd.sameLane.laneHolds (hS d)
        rcases (wp_error (putLane_spec _ hl) hr).laneHolds hl hm (hset d) with h | h
        · exact ⟨_, h, .inl rfl⟩
        · exact ⟨_, h, .inr rfl⟩
      · rcases ho d hdd with hs | hp
        · exact ⟨C d, hs.sameLane.laneHolds (hS d), .inl rfl⟩
        · exact ⟨_, hp.laneHolds (hS d), .inr rfl⟩
  choose C' hC' using hlane
  exact ⟨C', fun d => (hC' d).1, fun d => (hC' d).2⟩

/-- An empty disk. -/
theorem storeHolds_empty (H : Bytes → SplitHash) (st : Store) (h : ∀ p, w.content p = []) :
    StoreHolds H st w fun _ => [] :=
  fun _ => .of_empty fun _ => h _

end

end Storage.DeltaFlat
