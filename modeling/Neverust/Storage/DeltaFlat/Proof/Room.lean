import Neverust.Storage.DeltaFlat.Proof.Store

/-!
# When the DeltaFlat store takes a block

`LaneModel`: what decides whether a block fits into a lane, without the bytes on disk: the shape of
its table, its items and its append point. `LaneModel.insert` computes the lane after a block, or
`none` if the source would return an error.

* `insertBlockInClass_modeled`, `putLane_modeled`, `putMany_modeled`: if the model has room for the
  blocks and no IO fails, the code stores them, and the model describes the lanes afterwards.
* `Cleared.laneIs`: a deletion takes an item out of the model.
-/

namespace Storage.DeltaFlat

open Io Rust Bytes LinearHash

/-! ## The model -/

structure LaneModel where
  shape : Shape
  items : List Item
  fileId : UInt32
  offset : UInt64

instance (s : Shape) (hash : Nat) : Decidable (Addressable s hash) :=
  inferInstanceAs (Decidable (_ → _))

/-- A lane without entries. -/
def LaneModel.new (st : Store) : LaneModel := ⟨(initialControl st).shape, [], 0, 0⟩

section
variable (H : Bytes → SplitHash) (st : Store)

/-- The number of items in the bucket of a CID. -/
def crowd (s : Shape) (items : List Item) (cid : Bytes) : Nat :=
  (items.filter fun x => s.addr (H x.1).even.toNat = s.addr (H cid).even.toNat).length

/-- The shape in which the bucket of the CID has a free slot, after at most `n` attempts. -/
def roomFor (items : List Item) (cid : Bytes) : Nat → Shape → Option Shape
  | 0, _ => none
  | n + 1, s =>
    if Addressable s (H cid).even.toNat ∧ s.next.level ≤ 31 then
      if crowd H s items cid < entriesPerBucket then some s else roomFor items cid n s.next
    else none

/-- Where the data of a block goes. -/
def placeFor (len : Nat) (fileId : UInt32) (offset : UInt64) : Option (UInt32 × UInt64) :=
  match rollFile st.maxFileBytes len fileId offset with
  | .error _ => none
  | .ok (f, o) => if len < 2 ^ 32 ∧ o.toNat + len ≤ maxFileLen then some (f, o) else none

namespace LaneModel

/-- The lane with one more item, at the given place and in the given shape. -/
def grow (L : LaneModel) (b : Item) (place : UInt32 × UInt64) (s : Shape) : LaneModel where
  shape := if 2880 * s.buckets ≤ 100 * (L.items.length + 1) then s.next else s
  items := b :: L.items
  fileId := place.1
  offset := UInt64.ofNat (place.2.toNat + b.2.length)

/-- The lane after a block. -/
def insert (L : LaneModel) (b : Item) : Option LaneModel :=
  if b.1 = [] ∨ maxCidBytes < b.1.length then none
  else if !st.skipExistsCheck && L.items.any (fun x => x.1 = b.1) then
    if 0 < st.maxProbeSteps.toNat ∧ Addressable L.shape (H b.1).even.toNat then some L else none
  else
    match placeFor st b.2.length L.fileId L.offset,
      roomFor H L.items b.1 st.maxProbeSteps.toNat L.shape with
    | some place, some s => some (L.grow b place s)
    | _, _ => none

/-- The lane after the blocks of a batch. -/
def insertAll (L : LaneModel) (bs : List Item) : Option LaneModel := bs.foldlM (insert H st) L

end LaneModel

end

/-! ## Lanes and their models -/

/-- The model describes a lane with the control record `c`. -/
structure Described (d : LaneDir) (c : Control) (w : Disk) (L : LaneModel) : Prop where
  shape : c.shape = L.shape
  content : (laneContent d c w).Perm L.items
  fileId : c.nextFileId = L.fileId
  offset : c.nextOffset = L.offset

/-- The model describes the lane on disk. -/
inductive LaneIs (H : Bytes → SplitHash) (st : Store) (d : LaneDir) (w : Disk) (L : LaneModel) :
    Prop
  | blank (hb : Blank d w) (hL : L = .new st)
  | control (c : Control) (hc : HoldsControl d w c) (hi : LaneInv H st d c w)
      (hd : Described d c w L)

section
variable {H : Bytes → SplitHash} {st : Store} {d : LaneDir} {c c' : Control} {w w' w'' : Disk}
  {L L' : LaneModel} {cid data : Bytes}

theorem placeFor_eq_some {len : Nat} {f f' : UInt32} {o o' : UInt64}
    (h : placeFor st len f o = some (f', o')) :
    rollFile st.maxFileBytes len f o = .ok (f', o') ∧ len < 2 ^ 32 ∧ o'.toNat + len ≤ maxFileLen := by
  unfold placeFor at h
  split at h
  · cases h
  · rename_i f1 o1 hroll
    split at h
    · rename_i hle
      cases h
      exact ⟨hroll, hle⟩
    · cases h

/-- The rivals of a CID, counted by the contents. -/
theorem length_rivals (s : Shape) (l : List Entry) {m : List Item} (hm : (contentOf d w l).Perm m)
    (cid : Bytes) : (rivals H s l cid).length = crowd H s m cid := by
  unfold crowd
  rw [← (hm.filter _).length_eq, contentOf, List.filter_map, List.length_map]
  rfl

/-- What a shape with room means for the entries of the lane. -/
theorem roomFor_spec {l : List Entry} {m : List Item} (hm : (contentOf d w l).Perm m) (n : Nat)
    {s t : Shape} (h : roomFor H m cid n s = some t) :
    ∃ j < n, Room H s l cid j ∧ t = Shape.next^[j] s ∧
      ∀ i < j, entriesPerBucket ≤ (rivals H (Shape.next^[i] s) l cid).length := by
  induction n generalizing s with
  | zero => cases h
  | succ n ih =>
    rw [roomFor] at h
    split at h
    · rename_i hok
      split at h
      · rename_i hfree
        cases h
        refine ⟨0, Nat.succ_pos n, ⟨fun i hi => ?_, ?_, hok.2⟩, rfl,
          fun i hi => absurd hi (Nat.not_lt_zero i)⟩
        · obtain rfl : i = 0 := by omega
          exact hok.1
        · exact (length_rivals t l hm cid).symm ▸ hfree
      · rename_i hfull
        obtain ⟨j, hj, hroom, rfl, hall⟩ := ih h
        refine ⟨j + 1, by omega, ⟨fun i hi => ?_, hroom.free, hroom.level⟩, rfl, fun i hi => ?_⟩
        · cases i with
          | zero => exact hok.1
          | succ i => exact hroom.addressable i (by omega)
        · cases i with
          | zero =>
            rw [Function.iterate_zero_apply, length_rivals s l hm cid]
            exact Nat.le_of_not_lt hfull
          | succ i => exact hall i (by omega)
    · cases h

/-- The shape after a block is determined by the first bucket with a free slot. -/
theorem Grown.eq_of_first {s s' : Shape} {n j : Nat} {l : List Entry} (h : Grown H s n l cid s')
    (hfree : (rivals H (Shape.next^[j] s) l cid).length < entriesPerBucket)
    (hall : ∀ i < j, entriesPerBucket ≤ (rivals H (Shape.next^[i] s) l cid).length) :
    s' = if 2880 * (Shape.next^[j] s).buckets ≤ 100 * (n + 1) then (Shape.next^[j] s).next
      else Shape.next^[j] s := by
  obtain ⟨i, hall', hfree', hs'⟩ := h
  obtain rfl : i = j := by
    rcases Nat.lt_trichotomy i j with hlt | heq | hgt
    · have := hall i hlt
      omega
    · exact heq
    · have := hall' j hgt
      omega
  rwa [Function.iterate_succ_apply'] at hs'

theorem LaneInv.length_content (hi : LaneInv H st d c w) (hd : Described d c w L) :
    c.itemCount.toNat = L.items.length := by
  rw [hi.index.count, ← hd.content.length_eq, laneContent, contentOf, List.length_map]
  rfl

/-- The cases of `LaneModel.insert`. -/
theorem LaneModel.insert_cases {b : Item} (h : L.insert H st b = some L') :
    (b.1 ≠ [] ∧ b.1.length ≤ maxCidBytes) ∧
      ((st.skipExistsCheck = false ∧ (∃ x ∈ L.items, x.1 = b.1) ∧ 0 < st.maxProbeSteps.toNat ∧
          Addressable L.shape (H b.1).even.toNat ∧ L' = L) ∨
        ((st.skipExistsCheck = false → ∀ x ∈ L.items, x.1 ≠ b.1) ∧
          ∃ place s, placeFor st b.2.length L.fileId L.offset = some place ∧
            roomFor H L.items b.1 st.maxProbeSteps.toNat L.shape = some s ∧
            L' = L.grow b place s)) := by
  unfold LaneModel.insert at h
  split at h
  · cases h
  · rename_i hgood
    rw [not_or, Nat.not_lt] at hgood
    refine ⟨hgood, ?_⟩
    split at h
    · rename_i hfound
      rw [Bool.and_eq_true, any_cid_iff] at hfound
      split at h
      · rename_i hok
        cases h
        exact .inl ⟨by simpa using hfound.1, hfound.2, hok.1, hok.2, rfl⟩
      · cases h
    · rename_i hnew
      rw [Bool.and_eq_true, any_cid_iff] at hnew
      split at h
      · rename_i place s hplace hroom
        cases h
        exact .inr ⟨fun hs x hx hxb => hnew ⟨by simpa using hs, x, hx, hxb⟩,
          place, s, hplace, hroom, rfl⟩
      · cases h

theorem LaneModel.items_insert {b : Item} (h : L.insert H st b = some L') :
    L'.items = putContent st.skipExistsCheck L.items b := by
  rcases (L.insert_cases h).2 with ⟨hs, hfound, -, -, rfl⟩ | ⟨hnew, place, s, -, -, rfl⟩
  · rw [putContent_found hs hfound]
  · rw [putContent_new hnew]
    rfl

theorem LaneModel.items_insertAll {bs : List Item} (h : L.insertAll H st bs = some L') :
    L'.items = putContents st.skipExistsCheck L.items bs := by
  induction bs generalizing L with
  | nil =>
    cases h
    rfl
  | cons b bs ih =>
    rw [LaneModel.insertAll, List.foldlM_cons] at h
    cases h1 : L.insert H st b with
    | none =>
      rw [h1] at h
      cases h
    | some L1 =>
      rw [h1] at h
      rw [ih h, LaneModel.items_insert h1]
      rfl

/-- The block can be inserted if the model has room for it. -/
theorem Described.insertable (hd : Described d c w L) {b : Item} (h : L.insert H st b = some L') :
    Insertable H st c (laneEntries d c w) b.1 b.2.length st.skipExistsCheck
      st.maxProbeSteps.toNat := by
  rcases (L.insert_cases h).2 with ⟨hs, hfound, hpos, haddr, -⟩ | ⟨-, place, s, hplace, hroom, -⟩
  · refine .inl ⟨hs, hpos, by rw [hd.shape]; exact haddr, ?_⟩
    obtain ⟨x, hx, hxb⟩ := hfound
    exact exists_cid_contentOf.1 ⟨x, hd.content.mem_iff.2 hx, hxb⟩
  · obtain ⟨hroll, hlen, hmax⟩ := placeFor_eq_some hplace
    obtain ⟨j, hj, hroom, -, -⟩ := roomFor_spec hd.content _ hroom
    refine .inr ⟨⟨hlen, place.1, place.2, ?_, hmax⟩, j, hj, ?_⟩
    · rw [hd.fileId, hd.offset]
      exact hroll
    · rw [hd.shape]
      exact hroom

/-- The model follows an insertion. -/
theorem Inserted.described (hi : LaneInv H st d c w) (hd : Described d c w L) {b : Item}
    (hL : L.insert H st b = some L') {r : Control × Batch}
    (h : Inserted H st d b.1 b.2 st.skipExistsCheck c w r w') : Described d r.1 w' L' := by
  have hcontent : (laneContent d r.1 w').Perm L'.items := by
    rw [L.items_insert hL]
    exact (h.content hi).trans (putContent_perm hd.content b)
  rcases (L.insert_cases hL).2 with
    ⟨hs, hfound, -, -, rfl⟩ | ⟨hnew, place, s, hplace, hroom, rfl⟩
  · cases h.effect with
    | found _ _ _ hf ho hg =>
      exact ⟨hg.trans hd.shape, hcontent, hf.trans hd.fileId, ho.trans hd.offset⟩
    | new e _ _ _ hn _ _ _ =>
      obtain ⟨x, hx, hxb⟩ := hfound
      obtain ⟨y, hy, hyb⟩ := exists_cid_contentOf.1 ⟨x, hd.content.mem_iff.2 hx, hxb⟩
      exact absurd hyb (hn hs y hy)
  · cases h.effect with
    | found hs _ he _ _ _ =>
      obtain ⟨x, hx, hxb⟩ := exists_cid_contentOf (d := d) (w := w) |>.2 he
      exact absurd hxb (hnew hs x (hd.content.mem_iff.1 hx))
    | new e _ he _ _ hf ho hg =>
      obtain ⟨hroll, -, hmax⟩ := placeFor_eq_some hplace
      have hplace' := he.place
      rw [hd.fileId, hd.offset, hroll] at hplace'
      obtain ⟨hfile, hoff⟩ : place.1 = e.fileId ∧ place.2 = e.offset :=
        Prod.ext_iff.1 (Except.ok.inj hplace')
      refine ⟨?_, hcontent, by rw [hf, ← hfile]; rfl, ?_⟩
      · obtain ⟨j, -, hr, rfl, hall⟩ := roomFor_spec hd.content _ hroom
        rw [hd.shape] at hg
        rw [hg.eq_of_first hr.free hall, hi.length_content hd]
        rfl
      · apply UInt64.toNat_inj.1
        unfold maxFileLen at hmax
        rw [ho, Entry.stop, he.len, ← hoff]
        exact (UInt64.toNat_ofNat_of_lt' (show _ < 2 ^ 64 by omega)).symm

/-! ## Filling a lane -/

/-- **An insertion** that the model has room for. -/
theorem insertBlockInClass_modeled (hi : LaneInv H st d c w) (hd : Described d c w L)
    (hnf : w.NoFaults) {b : Batch} (hb : BatchOk d b w) (block : Block × Bytes)
    (hL : L.insert H st (itemOf block) = some L') :
    wp (insertBlockInClass H st d block.1 block.2 st.skipExistsCheck c b)
      (fun r w' => LaneInv H st d r.1 w' ∧ Described d r.1 w' L' ∧ w'.NoFaults ∧ BatchOk d r.2 w')
      (fun _ _ => False) w := by
  have hgood := (L.insert_cases hL).1
  refine wp_mono (insertBlockInClass_spec hi hb) (fun r w' h => ?_) fun e w' h => ?_
  · exact ⟨h.inv, Inserted.described hi hd hL h, h.frame.noFaults.2 hnf, h.batch⟩
  · exact h.stuck hnf hgood.1 hgood.2 (hd.insertable hL)

theorem insertBlocks_modeled (bs : List (Block × Bytes)) (hi : LaneInv H st d c w)
    (hd : Described d c w L) (hnf : w.NoFaults) {b : Batch} (hb : BatchOk d b w)
    (hL : L.insertAll H st (bs.map itemOf) = some L') :
    wp (insertBlocks H st d bs (c, b))
      (fun s w' => LaneInv H st d s.1 w' ∧ Described d s.1 w' L' ∧ w'.NoFaults ∧ BatchOk d s.2 w')
      (fun _ _ => False) w := by
  induction bs generalizing c b w L with
  | nil =>
    cases hL
    exact wp_pure ⟨hi, hd, hnf, hb⟩
  | cons x bs ih =>
    rw [List.map_cons, LaneModel.insertAll, List.foldlM_cons] at hL
    cases h1 : L.insert H st (itemOf x) with
    | none =>
      rw [h1] at hL
      cases hL
    | some L1 =>
      rw [h1] at hL
      refine wp_bind (wp_mono (insertBlockInClass_modeled hi hd hnf hb x h1)
        (fun r w1 h => ?_) fun _ _ h => h)
      obtain ⟨hi1, hd1, hnf1, hb1⟩ := h
      exact ih hi1 hd1 hnf1 hb1 hL

theorem LaneIs.laneHolds (h : LaneIs H st d w L) : LaneHolds H st d w L.items := by
  cases h with
  | blank hb hL =>
    subst hL
    exact ⟨[], .blank hb, .nil⟩
  | control c hc hi hd => exact .of_inv hc hi hd.content

theorem Described.kept (hi : LaneInv H st d c w) (hd : Described d c w L) (hp : PagesKept d w w')
    (hk : DataKept d c w w') : Described d c w' L :=
  ⟨hd.shape, by rw [hi.laneContent_kept hp hk]; exact hd.content, hd.fileId, hd.offset⟩

theorem SameLane.laneIs (h : SameLane d w w') (hL : LaneIs H st d w L) : LaneIs H st d w' L := by
  cases hL with
  | blank hb hL =>
    refine .blank ⟨?_, ?_, fun b => ?_⟩ hL
    · rw [h.content]
      exact hb.control
    · rw [h.content]
      exact hb.aligned
    · rw [h.content]
      exact hb.pages b
  | control c hc hi hd =>
    refine .control c ?_ (h.laneInv hi)
      (hd.kept hi (h.pagesKept hi.index.aligned) (h.dataKept c))
    rw [HoldsControl, h.content]
    exact hc

/-- A lane with items gives a CID a bucket iff its shape does. -/
theorem LaneIs.reaches_iff (hL : LaneIs H st d w L) (hne : L.items ≠ []) (cid : Bytes) :
    Reaches H d w cid ↔ Addressable L.shape (H cid).even.toNat := by
  have hfiles : (w.files (d, .control)).isSome ∧ (w.files (d, .index)).isSome := by
    by_contra hx
    obtain ⟨x, hmem⟩ := List.exists_mem_of_ne_nil _ hne
    exact (hL.laneHolds.of_missing hx x.1).1 x hmem rfl
  cases hL with
  | blank hb hL =>
    subst hL
    exact absurd rfl hne
  | control c hc hi hd => rw [DeltaFlat.reaches_iff hi hc hfiles.2, hd.shape]

theorem LaneIs.reaches (hL : LaneIs H st d w L) {cid : Bytes}
    (ha : Addressable L.shape (H cid).even.toNat) : Reaches H d w cid := by
  cases hL with
  | blank hb hL => exact reaches_of_blank hb cid
  | control c hc hi hd =>
    intro _ c' hc'
    rw [hc.unique hi hc']
    refine ⟨_, hi.index.primaryBucket_eq ?_⟩
    rw [hd.shape]
    exact ha

/-- A lane is loaded as its model describes it. -/
theorem Loaded.described (hL : LaneIs H st d w L) {l : List Entry} (hd : LaneDisk H st d w l)
    {w1 : Disk} (h : Loaded H st d l w c w1) : Described d c w1 L := by
  have hcontent : (laneContent d c w1).Perm L.items := by
    obtain ⟨l', hl', hm'⟩ := hL.laneHolds
    rw [h.content hd]
    cases hd with
    | blank hb =>
      cases hl' with
      | blank _ => exact hm'
      | control c1 hc1 _ =>
        have h1 := hb.control
        have h2 := hc1.length
        omega
    | control c1 hc1 hi1 =>
      cases hl' with
      | blank hb =>
        have h1 := hb.control
        have h2 := hc1.length
        omega
      | control c2 hc2 hi2 =>
        rw [hc2.unique hi2 hc1]
        exact hm'
  cases hL with
  | blank hb hL =>
    subst hL
    rcases h.origin with hc | ⟨-, rfl⟩
    · have h1 := hb.control
      have h2 := hc.length
      omega
    · exact ⟨rfl, hcontent, rfl, rfl⟩
  | control c1 hc1 hi1 hd1 =>
    rcases h.origin with hc | ⟨hb, -⟩
    · obtain rfl := hc1.unique hi1 hc
      exact ⟨hd1.shape, hcontent, hd1.fileId, hd1.offset⟩
    · have h1 := hb.control
      have h2 := hc1.length
      omega

/-- **A round of `put_many`** that the model has room for. -/
theorem putLane_modeled (bs : List (Block × Bytes)) (hL : LaneIs H st d w L) (hnf : w.NoFaults)
    (hins : L.insertAll H st (bs.map itemOf) = some L') :
    wp (putLane H st d bs) (fun _ w' => LaneIs H st d w' L') (fun _ _ => False) w := by
  obtain ⟨l, hl, -⟩ := hL.laneHolds
  have hrun : ∀ {c w1}, Loaded H st d l w c w1 →
      wp (insertBlocks H st d bs (c, Batch.empty))
        (fun s w' => LaneInv H st d s.1 w' ∧ Described d s.1 w' L') (fun _ _ => False) w1 := by
    intro c w1 h
    exact wp_mono (insertBlocks_modeled bs h.inv (h.described hL hl)
      (h.kept.frame.noFaults.2 hnf) (batchOk_empty d w1) hins) (fun _ _ h => ⟨h.1, h.2.1⟩)
      fun _ _ h => h
  refine wp_mono (putLane_spec bs hl) (fun _ w' h => ?_) fun _ w' h => ?_
  · obtain ⟨c, w1, s, w2, hload, hr, hc⟩ := h
    obtain ⟨hi2, hd2⟩ := wp_ok (hrun hload) hr
    have hidx : w'.content (d, .index) = w2.content (d, .index) := hc.frame.content (by simp)
    have hpk : PagesKept d w2 w' :=
      ⟨fun b => by rw [hidx], by rw [hidx]; exact hi2.index.aligned⟩
    have hdk : DataKept d s.1 w2 w' := .of_files _ fun f => hc.frame.files _ (by simp)
    exact .control s.1 hc.holds (hi2.kept hpk hdk) (hd2.kept hi2 hpk hdk)
  · obtain ⟨c, w1, e, w2, hload, hr⟩ := h.of_noFaults hnf
    exact wp_error (hrun hload) hr

end

/-! ## The store -/

/-- The models of all lanes. -/
def StoreIs (H : Bytes → SplitHash) (st : Store) (w : Disk) (Ls : LaneDir → LaneModel) : Prop :=
  ∀ d, LaneIs H st d w (Ls d)

section
variable {cr : Crates} {st : Store} {d : LaneDir} {w w' : Disk} {Ls Ls' : LaneDir → LaneModel}

theorem StoreIs.storeHolds (h : StoreIs (hashOf cr) st w Ls) :
    StoreHolds (hashOf cr) st w fun d => (Ls d).items :=
  fun d => (h d).laneHolds

theorem storeIs_empty (H : Bytes → SplitHash) (st : Store) (h : ∀ p, w.files p = none) :
    StoreIs H st w fun _ => .new st := by
  intro d
  have hnil : ∀ f, w.content (d, f) = [] := fun f => by rw [World.content, h]; rfl
  refine .blank ⟨by rw [hnil]; decide, by rw [hnil]; rfl, fun b => ?_⟩ rfl
  rw [hnil]
  exact pageAt_of_le (Nat.zero_le _)

/-- **`put_many`** stores the blocks that the models of their lanes have room for. -/
theorem putMany_modeled (blocks : List Block)
    (hver : verifyBlocks cr st.verifyBlocksOnWrite blocks = .ok ())
    (hS : StoreIs (hashOf cr) st w Ls) (hnf : w.NoFaults)
    (hins : ∀ d, (Ls d).insertAll (hashOf cr) st ((blocksIn cr st d blocks).map itemOf) =
      some (Ls' d)) :
    wp (putMany cr st blocks)
      (fun _ w' => w'.NoFaults ∧ StoreIs (hashOf cr) st w' Ls' ∧ PutDone cr st blocks w w')
      (fun _ _ => False) w := by
  have hlane : ∀ d w1, SameFiles d w w1 → w1.faults = w.faults →
      wp (putLane (hashOf cr) st d (blocksIn cr st d blocks))
        (fun _ w' => LaneIs (hashOf cr) st d w' (Ls' d)) (fun _ _ => False) w1 := by
    intro d w1 h1 hf
    refine putLane_modeled _ (h1.sameLane.laneIs (hS d)) ?_ (hins d)
    rw [World.NoFaults, hf]
    exact hnf
  refine wp_mono (putMany_spec blocks hS.storeHolds) (fun _ w' h => ?_) fun e w' h => ?_
  · refine ⟨h.frame.noFaults.2 hnf, fun d => ?_, h⟩
    cases h.lanes d with
    | idle hbs hf =>
      have hL := hins d
      rw [hbs] at hL
      rw [← Option.some.inj hL]
      exact hf.sameLane.laneIs (hS d)
    | put w1 w2 h1 hn hr h2 => exact h2.sameLane.laneIs (wp_ok (hlane d w1 h1 hn) hr)
  · cases h with
    | verify hw hfail =>
      rw [hver] at hfail
      cases hfail
    | lane d0 w1 hbs hd hn _ hf hr ho => exact wp_error (hlane d0 w1 hd hn) hr

/-- The place of a block that fits into the file of the append point. -/
theorem placeFor_of_le {len : Nat} {f : UInt32} {o : UInt64}
    (hmax : o.toNat + len ≤ st.maxFileBytes.toNat) (hlen : len < 2 ^ 32)
    (hfile : o.toNat + len ≤ maxFileLen) : placeFor st len f o = some (f, o) := by
  rw [placeFor, rollFile_of_le f hmax]
  exact if_pos ⟨hlen, hfile⟩

/-- A lane with a free slot in the bucket of a new CID takes its block without a split. -/
theorem LaneModel.insert_of_room {H : Bytes → SplitHash} {L : LaneModel} {b : Item}
    (hcid : b.1 ≠ [] ∧ b.1.length ≤ maxCidBytes) (hnew : ∀ x ∈ L.items, x.1 ≠ b.1)
    (hplace : placeFor st b.2.length L.fileId L.offset = some (L.fileId, L.offset))
    (hprobe : 0 < st.maxProbeSteps.toNat) (haddr : Addressable L.shape (H b.1).even.toNat)
    (hlevel : L.shape.next.level ≤ 31) (hfree : crowd H L.shape L.items b.1 < entriesPerBucket) :
    L.insert H st b = some (L.grow b (L.fileId, L.offset) L.shape) := by
  have hroom : roomFor H L.items b.1 st.maxProbeSteps.toNat L.shape = some L.shape := by
    obtain ⟨n, hn⟩ : ∃ n, st.maxProbeSteps.toNat = n + 1 := ⟨_, (Nat.sub_add_cancel hprobe).symm⟩
    rw [hn, roomFor, if_pos ⟨haddr, hlevel⟩, if_pos hfree]
  have hany : L.items.any (fun x => decide (x.1 = b.1)) = false := by
    rw [List.any_eq_false]
    exact fun x hx h => hnew x hx (of_decide_eq_true h)
  rw [LaneModel.insert, if_neg (by rw [not_or, Nat.not_lt]; exact hcid), hany, Bool.and_false,
    if_neg Bool.false_ne_true, hplace, hroom]

/-! ## A bucket that fills up -/

/-- A lane with two buckets and items of one byte. -/
def LaneModel.ofBytes (items : List Item) : LaneModel :=
  ⟨⟨1, 0⟩, items, 0, UInt64.ofNat items.length⟩

theorem placeFor_ofBytes {n : Nat} (hn : n ≤ 32) (hmax : 64 ≤ st.maxFileBytes.toNat) :
    placeFor st 1 0 (UInt64.ofNat n) = some (0, UInt64.ofNat n) := by
  have hoff : (UInt64.ofNat n).toNat = n := UInt64.toNat_ofNat_of_lt' (show _ < 2 ^ 64 by omega)
  refine placeFor_of_le ?_ (by decide) ?_
  · rw [hoff]
    omega
  · rw [hoff, maxFileLen]
    omega

/-- Such a lane takes a new item while no bucket can be full. -/
theorem LaneModel.insert_ofBytes {H : Bytes → SplitHash} {items : List Item} {b : Item}
    (hcid : b.1 ≠ [] ∧ b.1.length ≤ maxCidBytes) (hbyte : b.2.length = 1)
    (hnew : ∀ x ∈ items, x.1 ≠ b.1) (hlen : items.length < 32)
    (hmax : 64 ≤ st.maxFileBytes.toNat) (hprobe : 0 < st.maxProbeSteps.toNat) :
    (LaneModel.ofBytes items).insert H st b = some (.ofBytes (b :: items)) := by
  have hplace : placeFor st b.2.length (LaneModel.ofBytes items).fileId
      (LaneModel.ofBytes items).offset = some (0, UInt64.ofNat items.length) := by
    rw [hbyte]
    exact placeFor_ofBytes (Nat.le_of_lt hlen) hmax
  rw [LaneModel.insert_of_room hcid hnew hplace hprobe (.of_level (show 1 ≤ 30 by decide) _)
    (show (Shape.next ⟨1, 0⟩).level ≤ 31 by decide)
    (Nat.lt_of_le_of_lt (List.length_filter_le _ _) hlen)]
  -- the load factor is not reached
  have hload : ¬ 2880 * Shape.buckets ⟨1, 0⟩ ≤ 100 * (items.length + 1) := by
    change ¬ 2880 * 2 ≤ _
    omega
  have hoff : (UInt64.ofNat items.length).toNat = items.length :=
    UInt64.toNat_ofNat_of_lt' (show _ < 2 ^ 64 by omega)
  rw [LaneModel.grow, LaneModel.ofBytes, LaneModel.ofBytes]
  dsimp only
  rw [if_neg hload, hoff, hbyte]
  rfl

theorem LaneModel.insertAll_ofBytes {H : Bytes → SplitHash} {bs items : List Item}
    (hcid : ∀ b ∈ bs, b.1 ≠ [] ∧ b.1.length ≤ maxCidBytes) (hbyte : ∀ b ∈ bs, b.2.length = 1)
    (hnew : ∀ b ∈ bs, ∀ x ∈ items, x.1 ≠ b.1) (hn : bs.Pairwise fun a b => a.1 ≠ b.1)
    (hlen : items.length + bs.length ≤ 32) (hmax : 64 ≤ st.maxFileBytes.toNat)
    (hprobe : 0 < st.maxProbeSteps.toNat) :
    (LaneModel.ofBytes items).insertAll H st bs = some (.ofBytes (bs.reverse ++ items)) := by
  induction bs generalizing items with
  | nil => rfl
  | cons b bs ih =>
    rw [List.pairwise_cons] at hn
    rw [List.length_cons] at hlen
    rw [LaneModel.insertAll, List.foldlM_cons, LaneModel.insert_ofBytes (hcid b (.head _))
      (hbyte b (.head _)) (hnew b (.head _)) (by omega) hmax hprobe, List.reverse_cons,
      List.append_assoc]
    refine ih (fun a ha => hcid a (.tail _ ha)) (fun a ha => hbyte a (.tail _ ha))
      (fun a ha x hx => ?_) hn.2 (by rw [List.length_cons]; omega)
    rcases List.mem_cons.1 hx with rfl | hx
    · exact hn.1 a ha
    · exact hnew a (.tail _ ha) x hx

/-! ## One block -/

theorem blocksIn_singleton (block : Block) (d : LaneDir) :
    blocksIn cr st d [block] =
      if homeOf cr st block = d then [(block, cr.cidToBytes block.cid)] else [] := by
  rw [blocksIn, List.filter_singleton]
  by_cases h : homeOf cr st block = d
  · rw [decide_eq_true h, if_pos h]
    rfl
  · rw [decide_eq_false h, if_neg h]
    rfl

/-- **A put of one block** that the model of its lane has room for. -/
theorem putMany_one (block : Block) {L : LaneModel}
    (hver : verifyBlocks cr st.verifyBlocksOnWrite [block] = .ok ())
    (hS : StoreIs (hashOf cr) st w Ls) (hnf : w.NoFaults)
    (hins : (Ls (homeOf cr st block)).insert (hashOf cr) st
      (cr.cidToBytes block.cid, block.data) = some L) :
    wp (putMany cr st [block])
      (fun _ w' => w'.NoFaults ∧
        StoreIs (hashOf cr) st w' (Function.update Ls (homeOf cr st block) L) ∧
        ((∀ d, ¬ Unsettled d w) → ∀ d, ¬ Unsettled d w'))
      (fun _ _ => False) w := by
  refine wp_mono (putMany_modeled [block] hver hS hnf fun d => ?_)
    (fun _ w' h => ⟨h.1, h.2.1, h.2.2.settled⟩) fun _ _ h => h
  rw [blocksIn_singleton]
  by_cases hd : homeOf cr st block = d
  · subst hd
    rw [if_pos rfl, Function.update_self]
    change (do let L' ← (Ls _).insert _ _ (_, _); some L') = _
    rw [hins]
    rfl
  · rw [if_neg hd, Function.update_of_ne (Ne.symm hd)]
    rfl

/-- A new lane takes a first block. -/
theorem LaneModel.insert_new (H : Bytes → SplitHash) {b : Item}
    (hcid : b.1 ≠ [] ∧ b.1.length ≤ maxCidBytes) (hmax : b.2.length ≤ st.maxFileBytes.toNat)
    (hlen : b.2.length < 2 ^ 32) (hprobe : 0 < st.maxProbeSteps.toNat) :
    (LaneModel.new st).insert H st b =
      some ((LaneModel.new st).grow b (0, 0) (initialControl st).shape) := by
  have hlevel := initialControl_level st
  refine LaneModel.insert_of_room hcid (fun x hx => absurd hx List.not_mem_nil)
    (placeFor_of_le ?_ hlen ?_) hprobe (.of_level ?_ _) ?_ ?_
  · change 0 + b.2.length ≤ _
    omega
  · change 0 + b.2.length ≤ 2 ^ 63 - 1
    omega
  · change (initialControl st).level.toNat ≤ 30
    omega
  · exact (Shape.next_level_le (s := (initialControl st).shape) hlevel.2).trans (by decide)
  · change 0 < 32
    decide

/-- A lane that was new before its last block. -/
theorem LaneModel.level_grow_new (st : Store) (b : Item) (place : UInt32 × UInt64) :
    ((LaneModel.new st).grow b place (initialControl st).shape).shape.level ≤ 30 := by
  have hlevel := initialControl_level st
  rw [LaneModel.grow]
  dsimp only
  split
  · exact (Shape.next_level_le (s := (initialControl st).shape) hlevel.2).trans (by decide)
  · exact hlevel.2.trans (by decide)

/-- The model of a lane without an item of the CID. -/
def LaneModel.erase (L : LaneModel) (x : Item) : LaneModel := { L with items := L.items.erase x }

theorem Cleared.laneIs {H : Bytes → SplitHash} {L : LaneModel} {cid : Bytes}
    (hL : LaneIs H st d w L) (h : Cleared H st d cid w w') :
    ∃ data, (cid, data) ∈ L.items ∧ LaneIs H st d w' (L.erase (cid, data)) := by
  obtain ⟨c, c', w2, hc, hi, hdel, hw⟩ := h
  have hd : Described d c w L := by
    cases hL with
    | blank hb hL =>
      have h1 := hb.control
      have h2 := hc.length
      omega
    | control c1 hc1 hi1 hd1 =>
      rw [hc1.unique hi1 hc]
      exact hd1
  obtain ⟨e, hcid, hl⟩ := hdel.effect
  have hidx : w'.content (d, .index) = w2.content (d, .index) := hw.frame.content (by simp)
  have hpk : PagesKept d w2 w' :=
    ⟨fun b => by rw [hidx], by rw [hidx]; exact hdel.inv.index.aligned⟩
  have hdk : DataKept d c' w2 w' := .of_files _ fun f => hw.frame.files _ (by simp)
  have hdata : contentOf d w2 (laneEntries d c' w2) = contentOf d w (laneEntries d c' w2) :=
    contentOf_congr fun x _ => by rw [blockOf, blockOf, hdel.frame.content (by simp)]
  have hperm : L.items.Perm ((cid, blockOf d w e) :: laneContent d c' w') := by
    refine hd.content.symm.trans ?_
    rw [hdel.inv.laneContent_kept hpk hdk, laneContent, laneContent, hdata, ← hcid]
    exact hl.map _
  refine ⟨blockOf d w e, hperm.mem_iff.2 (.head _),
    .control c' hw.holds (hdel.inv.kept hpk hdk)
      ⟨hdel.shape.trans hd.shape, ?_, hdel.nextFileId.trans hd.fileId,
        hdel.nextOffset.trans hd.offset⟩⟩
  have := hperm.erase (cid, blockOf d w e)
  rw [List.erase_cons_head] at this
  exact this.symm

end

end Storage.DeltaFlat
