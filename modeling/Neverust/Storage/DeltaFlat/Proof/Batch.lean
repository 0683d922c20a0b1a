import Neverust.Storage.DeltaFlat.Proof.Content

/-!
# Rounds of the DeltaFlat functions on one lane

* `putLane_spec`: a round of `put_many` loads the control record, runs the loop and writes the
  record (`Filled`), or fails at one of these steps (`FillFailed`).
* `Filled.laneHolds`: the blocks are in the lane. `FillFailed.laneHolds`: after a failed round the
  lane has its old contents or the new ones, unless an index page was written after the last
  control record (`World.pending`).
* `lookupLane_spec`, `deleteLane_spec`: the same for the rounds of `get`, `has` and `delete`.
-/

namespace Storage.DeltaFlat

open Io Rust Bytes LinearHash

/-- A file of the lane. -/
def InLane (d : LaneDir) (p : Path) : Prop := p.1 = d

/-- Files may have been created, nothing else happened. -/
structure Still (d : LaneDir) (w w' : Disk) : Prop where
  frame : Frame (fun p => p = (d, .index) ∨ p = (d, .control)) w w'
  content : ∀ f, w'.content (d, f) = w.content (d, f)
  writes : ∀ p, w'.writes p = w.writes p

/-- A page of the index was written after the last control record. -/
def Unsettled (d : LaneDir) (w : Disk) : Prop := w.pending (d, .index) (d, .control) = true

section
variable {H : Bytes → SplitHash} {st : Store} {d : LaneDir} {c c' : Control} {w w' w'' : Disk}
  {l : List Entry} {m : List Item}

theorem Still.trans (h : Still d w w') (h' : Still d w' w'') : Still d w w'' where
  frame := h.frame.trans h'.frame
  content f := (h'.content f).trans (h.content f)
  writes p := (h'.writes p).trans (h.writes p)

theorem Still.of_untouched (d : LaneDir) (h : Untouched w w') : Still d w w' :=
  ⟨h.frame _, fun _ => h.content _, h.writes⟩

theorem Still.sameLane (h : Still d w w') : SameLane d w w' :=
  ⟨h.content, fun _ => h.frame.kept _⟩

theorem sameLane_of_untouched (h : Untouched w w') : SameLane d w w' :=
  .of_files fun f => by rw [h.files]

/-- A file opened with `create`: its contents stay. -/
theorem Still.setFile {p : Path} (hp : p = (d, .index) ∨ p = (d, .control)) (w : Disk) :
    Still d w ((w.logged (.openFile p)).setFile p (w.content p)) := by
  have hlog : Untouched w (w.logged (.openFile p)) := .logged w (by simp)
  refine ⟨(hlog.frame _).trans
    (Frame.setFile (fun p : Path => p = (d, .index) ∨ p = (d, .control)) hp _ _), fun f => ?_,
    fun q => ?_⟩
  · by_cases hf : ((d, f) : Path) = p
    · rw [hf, World.content_setFile_self]
    · rw [World.content_setFile_ne _ _ hf, World.content_logged]
  · rw [World.writes_setFile, World.writes_logged_ne _ (by simp)]

theorem openClassFiles_spec (d : LaneDir) (w : Disk) :
    wp (openClassFiles d) (fun _ w' => Still d w w')
      (fun e w' => e = .ioError .other ∧ ¬ w.NoFaults ∧ Still d w w') w := by
  have h1 : Untouched w (w.logged .createDir) := .logged w (by simp)
  refine wp_bind (wp_attempt ?_ fun hf => ⟨rfl, hf, .of_untouched d h1⟩)
  have hs1 := Still.of_untouched d h1
  have h2 : ∀ w : Disk, Still d w (w.logged (.openFile (d, .control))) :=
    fun w => .of_untouched d (.logged w (by simp))
  refine wp_bind (wp_openCreate ?_ fun hf => ⟨rfl, hs1.frame.noFaults.not.1 hf, hs1.trans (h2 _)⟩)
  have hs2 := hs1.trans (.setFile (.inr rfl) _)
  have h3 : ∀ w : Disk, Still d w (w.logged (.openFile (d, .index))) :=
    fun w => .of_untouched d (.logged w (by simp))
  exact wp_openCreate (hs2.trans (.setFile (.inl rfl) _))
    fun hf => ⟨rfl, hs2.frame.noFaults.not.1 hf, hs2.trans (h3 _)⟩

/-- An operation on the control file's lock. -/
theorem lock_spec (b : Bool) {op : IoOp Path} (hop : ∀ p, op ≠ .write p) (w : Disk) :
    wp (if b then pure () else attempt op : Act Unit) (fun _ w' => Untouched w w')
      (fun e w' => e = .ioError .other ∧ ¬ w.NoFaults ∧ Untouched w w') w := by
  cases b with
  | true => exact wp_pure (.refl w)
  | false => exact wp_attempt (.logged w hop) fun hf => ⟨rfl, hf, .logged w hop⟩

theorem lockControl_spec (st : Store) (d : LaneDir) (w : Disk) :
    wp (lockControl st d) (fun _ w' => Untouched w w')
      (fun e w' => e = .ioError .other ∧ ¬ w.NoFaults ∧ Untouched w w') w :=
  lock_spec st.skipFcntl (by simp) w

theorem unlockControl_spec (st : Store) (d : LaneDir) (w : Disk) :
    wp (unlockControl st d) (fun _ w' => Untouched w w')
      (fun e w' => e = .ioError .other ∧ ¬ w.NoFaults ∧ Untouched w w') w :=
  lock_spec st.skipFcntl (by simp) w

/-- An attempt that touches no file, after other such steps. -/
theorem wp_attempt_untouched {w0 : Disk} (h0 : Untouched w0 w) {op : IoOp Path}
    (hop : ∀ p, op ≠ .write p) :
    wp (attempt op : Act Unit) (fun _ w' => Untouched w0 w')
      (fun e w' => e = .ioError .other ∧ ¬ w0.NoFaults ∧ Untouched w0 w') w :=
  wp_attempt (h0.trans (.logged w hop))
    fun hf => ⟨rfl, h0.noFaults.not.1 hf, h0.trans (.logged w hop)⟩

theorem syncBatch_spec (d : LaneDir) (b : Batch) (w : Disk) :
    wp (syncBatch d b) (fun _ w' => Untouched w w')
      (fun e w' => e = .ioError .other ∧ ¬ w.NoFaults ∧ Untouched w w') w := by
  have hdata := wp_foldlM (f := fun (_ : Unit) fileId =>
      if fileId ∈ b.dataFiles then (attempt (.sync (d, .data fileId)) : Act Unit) else pure ())
    (fun _ _ w' => Untouched w w')
    (E := fun e w' => e = .ioError .other ∧ ¬ w.NoFaults ∧ Untouched w w')
    (fun f rest u w1 h1 => ?_) b.touchedData.eraseDups () w (.refl w)
  · refine wp_bind (wp_mono hdata (fun _ w1 h1 => ?_) fun _ _ h => h)
    cases b.touchedIndex with
    | true =>
      exact wp_bind (wp_mono (wp_attempt_untouched h1 (by simp))
        (fun _ w2 h2 => wp_attempt_untouched h2 (by simp)) fun _ _ h => h)
    | false => exact wp_attempt_untouched h1 (by simp)
  · split
    · exact wp_attempt_untouched h1 (by simp)
    · exact wp_pure h1

/-! ## Filling a lane -/

/-- The lane as it is loaded. -/
structure Loaded (H : Bytes → SplitHash) (st : Store) (d : LaneDir) (l : List Entry) (w : Disk)
    (c : Control) (w' : Disk) : Prop where
  holds : HoldsControl d w' c
  inv : LaneInv H st d c w'
  entries : laneEntries d c w' = l
  kept : LoadKept d w w'
  origin : HoldsControl d w c ∨ Blank d w ∧ c = initialControl st

/-- The control record is on disk. -/
structure Committed (d : LaneDir) (c : Control) (w w' : Disk) : Prop where
  frame : Frame (· = (d, .control)) w w'
  holds : HoldsControl d w' c
  settled : ¬ Unsettled d w'

/-- A round that went through. -/
def Filled (H : Bytes → SplitHash) (st : Store) (d : LaneDir) (bs : List (Block × Bytes))
    (l : List Entry) (w w' : Disk) : Prop :=
  ∃ c w1 s w2, Loaded H st d l w c w1 ∧
    insertBlocks H st d bs (c, Batch.empty) w1 = .ok s w2 ∧ Committed d s.1 w2 w'

/-- A round that failed: before the loop, in the loop, at the control record, or after it. -/
inductive FillFailed (H : Bytes → SplitHash) (st : Store) (d : LaneDir)
    (bs : List (Block × Bytes)) (l : List Entry) (w w' : Disk) : Prop
  | load (hk : LoadKept d w w') (hd : LaneDisk H st d w' l) (hf : ¬ w.NoFaults)
  | insert (c : Control) (w1 : Disk) (e : StorageError) (w2 : Disk)
      (hl : Loaded H st d l w c w1)
      (hr : insertBlocks H st d bs (c, Batch.empty) w1 = .error e w2) (hu : Untouched w2 w')
  | control (c : Control) (w1 : Disk) (s : Control × Batch) (w2 w3 : Disk)
      (hl : Loaded H st d l w c w1)
      (hr : insertBlocks H st d bs (c, Batch.empty) w1 = .ok s w2) (hf : ¬ w.NoFaults)
      (hw : ControlWritten d w2 w3)
      (hp : w3.pending (d, .index) (d, .control) = w2.pending (d, .index) (d, .control))
      (hk : ∃ k, w3.content (d, .control) =
        (w2.content (d, .control)).writeAt 0 ((encodeControl s.1).bytes.take k))
      (hu : Untouched w3 w')
  | late (h : Filled H st d bs l w w') (hf : ¬ w.NoFaults)

theorem Unsettled.congr (hu : Untouched w w') : Unsettled d w' ↔ Unsettled d w := by
  rw [Unsettled, Unsettled, Frame.pending_eq hu (hu.writes _) (hu.writes _)]

/-- Loading a lane leaves it settled. -/
theorem LoadKept.settled (h : LoadKept d w w') (hset : ¬ Unsettled d w) : ¬ Unsettled d w' :=
  fun hp => hset (h.frame.pending_of_quiet h.writes hp)

theorem Committed.untouched (h : Committed d c w w') (hu : Untouched w' w'') :
    Committed d c w w'' :=
  ⟨h.frame.trans (hu.frame _), by rw [HoldsControl, hu.content]; exact h.holds,
    (Unsettled.congr hu).not.2 h.settled⟩

theorem Filled.untouched {bs : List (Block × Bytes)} (h : Filled H st d bs l w w')
    (hu : Untouched w' w'') : Filled H st d bs l w w'' := by
  obtain ⟨c, w1, s, w2, hl, hr, hc⟩ := h
  exact ⟨c, w1, s, w2, hl, hr, hc.untouched hu⟩

theorem LoadKept.still (h : Still d w w') : LoadKept d w w' :=
  ⟨h.frame, h.writes _⟩

theorem FillFailed.untouched {bs : List (Block × Bytes)} (h : FillFailed H st d bs l w w')
    (hu : Untouched w' w'') : FillFailed H st d bs l w w'' := by
  cases h with
  | load hk hd hf =>
    exact .load (hk.trans (.of_untouched hu)) ((sameLane_of_untouched hu).laneDisk hd) hf
  | insert c w1 e w2 hl hr hu' => exact .insert c w1 e w2 hl hr (hu'.trans hu)
  | control c w1 s w2 w3 hl hr hf hw hp hk hu' =>
    exact .control c w1 s w2 w3 hl hr hf hw hp hk (hu'.trans hu)
  | late h hf => exact .late (h.untouched hu) hf

theorem Loaded.of_still {w1 : Disk} (h0 : Still d w w1) (h : Loaded H st d l w1 c w') :
    Loaded H st d l w c w' := by
  refine ⟨h.holds, h.inv, h.entries, (LoadKept.still h0).trans h.kept, ?_⟩
  refine h.origin.imp (fun hc => ?_) fun ⟨hb, hc⟩ => ⟨?_, hc⟩
  · rw [HoldsControl, ← h0.content]
    exact hc
  · exact ⟨by rw [← h0.content]; exact hb.control, by rw [← h0.content]; exact hb.aligned,
      fun b => by rw [← h0.content]; exact hb.pages b⟩

theorem Filled.of_still {bs : List (Block × Bytes)} {w1 : Disk} (h0 : Still d w w1)
    (h : Filled H st d bs l w1 w') : Filled H st d bs l w w' := by
  obtain ⟨c, w2, s, w3, hl, hr, hc⟩ := h
  exact ⟨c, w2, s, w3, hl.of_still h0, hr, hc⟩

theorem FillFailed.of_still {bs : List (Block × Bytes)} {w1 : Disk} (h0 : Still d w w1)
    (h : FillFailed H st d bs l w1 w') : FillFailed H st d bs l w w' := by
  have hnf := h0.frame.noFaults.not
  cases h with
  | load hk hd hf => exact .load ((LoadKept.still h0).trans hk) hd (hnf.1 hf)
  | insert c w2 e w3 hl hr hu => exact .insert c w2 e w3 (hl.of_still h0) hr hu
  | control c w2 s w3 w4 hl hr hf hw hp hk hu =>
    exact .control c w2 s w3 w4 (hl.of_still h0) hr (hnf.1 hf) hw hp hk hu
  | late h hf => exact .late (h.of_still h0) (hnf.1 hf)

theorem batchOk_empty (d : LaneDir) (w : Disk) : BatchOk d Batch.empty w :=
  fun _ hf => absurd hf List.not_mem_nil

theorem fillLane_spec (bs : List (Block × Bytes)) (hd : LaneDisk H st d w l) :
    wp (fillLane H st d bs) (fun _ w' => Filled H st d bs l w w')
      (fun _ w' => FillFailed H st d bs l w w') w := by
  refine wp_bind (wp_mono (loadOrInitControl_spec hd) (fun c w1 h1 => ?_) fun e w' h => ?_)
  case refine_2 => exact .load h.2.2.1 h.2.2.2 h.2.1
  obtain ⟨hc1, hi1, hl1, hk1, ho1⟩ := h1
  have hload : Loaded H st d l w c w1 := ⟨hc1, hi1, hl1, hk1, ho1⟩
  refine wp_bind (wp_mono (wp_run _) (fun s w2 h2 => ?_) fun e w' h => ?_)
  case refine_2 => exact .insert c w1 e w' hload h (.refl w')
  have hb2 := wp_ok (insertBlocks_spec bs hi1 (batchOk_empty d w1)) h2
  have hlen2 : (w2.content (d, .control)).length ≤ controlLen :=
    Nat.le_of_eq (hc1.of_index hb2.frame).length
  have hnf : w2.NoFaults ↔ w.NoFaults := hb2.frame.noFaults.trans hk1.frame.noFaults
  refine wp_bind (wp_mono (writeControlRaw_spec hlen2 s.1) (fun _ w3 h3 => ?_) fun e w' h => ?_)
  case refine_2 =>
    obtain ⟨-, hf, hw, hp, hk⟩ := h
    exact .control c w1 s w2 w' hload h2 (hnf.not.1 hf) hw hp hk (.refl w')
  have hdone : Filled H st d bs l w w3 := ⟨c, w1, s, w2, hload, h2, h3.1.frame, h3.2.1, by rw [Unsettled, h3.2.2]; decide⟩
  have hnf3 : w3.NoFaults ↔ w.NoFaults := h3.1.frame.noFaults.trans hnf
  cases st.fsyncWrites with
  | true =>
    exact wp_mono (syncBatch_spec d s.2 w3) (fun _ w4 h4 => hdone.untouched h4)
      fun e w' h => .late (hdone.untouched h.2.2) (hnf3.not.1 h.2.1)
  | false => exact wp_pure hdone

/-- **A round of `put_many`.** -/
theorem putLane_spec (bs : List (Block × Bytes)) (hd : LaneDisk H st d w l) :
    wp (putLane H st d bs) (fun _ w' => Filled H st d bs l w w')
      (fun _ w' => FillFailed H st d bs l w w') w := by
  have hstill : ∀ {w'}, Still d w w' → ¬ w.NoFaults → FillFailed H st d bs l w w' :=
    fun h hf => .load (.still h) (h.sameLane.laneDisk hd) hf
  refine wp_bind (wp_mono (openClassFiles_spec d w) (fun _ w1 h1 => ?_) fun e w' h => ?_)
  case refine_2 => exact hstill h.2.2 h.2.1
  refine wp_bind (wp_mono (lockControl_spec st d w1) (fun _ w2 h2 => ?_) fun e w' h => ?_)
  case refine_2 =>
    exact hstill (h1.trans (.of_untouched d h.2.2)) (h1.frame.noFaults.not.1 h.2.1)
  have h02 := h1.trans (.of_untouched d h2)
  refine wp_bind (wp_captured (wp_mono (fillLane_spec bs (h02.sameLane.laneDisk hd))
    (fun _ w3 h3 => ?_) fun e w3 h3 => ?_))
  · refine wp_bind (wp_captured (wp_mono (unlockControl_spec st d w3) (fun _ w4 h4 => ?_)
      fun e w4 h4 => ?_))
    · exact wp_pure ((h3.of_still h02).untouched h4)
    · refine wp_throw (.late ((h3.of_still h02).untouched h4.2.2) ?_)
      obtain ⟨c, w5, s, w6, hl, hr, hc⟩ := h3
      have hb := wp_ok (insertBlocks_spec bs hl.inv (batchOk_empty d w5)) hr
      intro hnf
      exact h4.2.1 (hc.frame.noFaults.2 (hb.frame.noFaults.2 (hl.kept.frame.noFaults.2
        (h02.frame.noFaults.2 hnf))))
  · refine wp_bind (wp_captured (wp_mono (unlockControl_spec st d w3) (fun _ w4 h4 => ?_)
      fun e' w4 h4 => ?_))
    · exact wp_throw ((h3.of_still h02).untouched h4)
    · exact wp_throw ((h3.of_still h02).untouched h4.2.2)

/-! ## The contents afterwards -/

theorem LaneDisk.contentOf_load (hd : LaneDisk H st d w l) {w1 : Disk} (hk : LoadKept d w w1) :
    contentOf d w1 l = contentOf d w l := by
  cases hd with
  | blank hb => rfl
  | control c hc hi => exact hi.data.contentOf_kept (hk.dataKept c)

theorem Loaded.content (hd : LaneDisk H st d w l) {w1 : Disk} (h : Loaded H st d l w c w1) :
    laneContent d c w1 = contentOf d w l := by
  rw [laneContent, h.entries]
  exact hd.contentOf_load h.kept

theorem LoadKept.inLane (h : LoadKept d w w') : Frame (InLane d) w w' :=
  h.frame.mono fun _ hp => hp.elim (fun h => h ▸ rfl) fun h => h ▸ rfl

theorem inLane_of_notControl (h : Frame (NotControl d) w w') : Frame (InLane d) w w' :=
  h.mono fun _ hp => hp.1

theorem inLane_of_index (h : Frame (· = (d, .index)) w w') : Frame (InLane d) w w' :=
  h.mono fun _ hp => hp ▸ rfl

theorem inLane_of_control (h : Frame (· = (d, .control)) w w') : Frame (InLane d) w w' :=
  h.mono fun _ hp => hp ▸ rfl

theorem Filled.frame {bs : List (Block × Bytes)} (h : Filled H st d bs l w w') :
    Frame (InLane d) w w' := by
  obtain ⟨c, w1, s, w2, hl, hr, hc⟩ := h
  have hb := wp_ok (insertBlocks_spec bs hl.inv (batchOk_empty d w1)) hr
  exact (hl.kept.inLane.trans (inLane_of_notControl hb.frame)).trans (inLane_of_control hc.frame)

theorem FillFailed.frame {bs : List (Block × Bytes)} (h : FillFailed H st d bs l w w') :
    Frame (InLane d) w w' := by
  cases h with
  | load hk hd hf => exact hk.inLane
  | insert c w1 e w2 hl hr hu =>
    have hb := wp_error (insertBlocks_spec bs hl.inv (batchOk_empty d w1)) hr
    exact (hl.kept.inLane.trans (inLane_of_notControl hb.frame)).trans (hu.frame _)
  | control c w1 s w2 w3 hl hr hf hw hp hk hu =>
    have hb := wp_ok (insertBlocks_spec bs hl.inv (batchOk_empty d w1)) hr
    exact ((hl.kept.inLane.trans (inLane_of_notControl hb.frame)).trans
      (inLane_of_control hw.frame)).trans (hu.frame _)
  | late h hf => exact h.frame

/-- A round that went through leaves no lane unsettled. -/
theorem Filled.settled {bs : List (Block × Bytes)} (h : Filled H st d bs l w w')
    (hset : ∀ d', ¬ Unsettled d' w) (d' : LaneDir) : ¬ Unsettled d' w' := by
  by_cases hd : d' = d
  · subst hd
    obtain ⟨c, w1, s, w2, -, -, hc⟩ := h
    exact hc.settled
  · rw [Unsettled, h.frame.pending_eq (h.frame.writes (d', .index) hd)
      (h.frame.writes (d', .control) hd)]
    exact hset d'

/-- **The blocks are in the lane.** -/
theorem Filled.laneHolds {bs : List (Block × Bytes)} (hd : LaneDisk H st d w l)
    (hm : (contentOf d w l).Perm m) (h : Filled H st d bs l w w') :
    LaneHolds H st d w' (putContents st.skipExistsCheck m (bs.map itemOf)) := by
  obtain ⟨c, w1, s, w2, hl, hr, hc⟩ := h
  have hb := wp_ok (insertBlocks_spec bs hl.inv (batchOk_empty d w1)) hr
  have hidx : w'.content (d, .index) = w2.content (d, .index) := hc.frame.content (by simp)
  have hpk : PagesKept d w2 w' :=
    ⟨fun b => by rw [hidx], by rw [hidx]; exact hb.inv.index.aligned⟩
  have hdk : DataKept d s.1 w2 w' := .of_files _ fun f => hc.frame.files _ (by simp)
  refine .of_inv hc.holds (hb.inv.kept hpk hdk) ?_
  rw [hb.inv.laneContent_kept hpk hdk]
  refine hb.content.trans (putContents_perm ?_ _)
  rw [hl.content hd]
  exact hm

/-- A lane of which neither the pages nor the control record changed. -/
theorem Loaded.laneHolds (hd : LaneDisk H st d w l) (hm : (contentOf d w l).Perm m) {w1 : Disk}
    (hl : Loaded H st d l w c w1) (hp : PagesKept d w1 w') (hk : DataKept d c w1 w')
    (hc : HoldsControl d w' c) : LaneHolds H st d w' m := by
  refine .of_inv hc (hl.inv.kept hp hk) ?_
  rw [hl.inv.laneContent_kept hp hk, hl.content hd]
  exact hm

/-- **A failed round** leaves the old contents or the new ones, if it leaves no page of the index
without a later control record. -/
theorem FillFailed.laneHolds {bs : List (Block × Bytes)} (hd : LaneDisk H st d w l)
    (hm : (contentOf d w l).Perm m) (h : FillFailed H st d bs l w w')
    (hset : ¬ Unsettled d w') :
    LaneHolds H st d w' m ∨
      LaneHolds H st d w' (putContents st.skipExistsCheck m (bs.map itemOf)) := by
  cases h with
  | load hk hd' hf =>
    refine .inl ⟨l, hd', ?_⟩
    rw [hd.contentOf_load hk]
    exact hm
  | insert c w1 e w2 hl hr hu =>
    have hb := wp_error (insertBlocks_spec bs hl.inv (batchOk_empty d w1)) hr
    -- A page written in the loop would be pending.
    have hquiet : w2.writes (d, .index) = w1.writes (d, .index) := by
      by_contra hne
      apply hset
      rw [Unsettled, (hu.frame fun _ => False).pending_eq (hu.writes _) (hu.writes _)]
      exact hb.frame.pending_of_write hne (hb.frame.writes _ (by simp [NotControl]))
    left
    refine (sameLane_of_untouched hu).laneHolds ?_
    exact hl.laneHolds hd hm (hb.quiet hquiet) hb.kept (hl.holds.of_index hb.frame)
  | control c w1 s w2 w3 hl hr hf hw hp hk hu =>
    have hb := wp_ok (insertBlocks_spec bs hl.inv (batchOk_empty d w1)) hr
    have hquiet : w2.writes (d, .index) = w1.writes (d, .index) := by
      by_contra hne
      apply hset
      rw [Unsettled, (hu.frame fun _ => False).pending_eq (hu.writes _) (hu.writes _), hp]
      exact hb.frame.pending_of_write hne (hb.frame.writes _ (by simp [NotControl]))
    obtain ⟨hc, hpages⟩ := hb.quiet hquiet
    obtain ⟨k, hk⟩ := hk
    -- The record that was being written is the one on disk.
    have hholds : HoldsControl d w3 c := by
      have h2 : w2.content (d, .control) = (encodeControl c).bytes := hl.holds.of_index hb.frame
      rw [HoldsControl, hk, hc, h2, writeAt_take_self]
    left
    refine (sameLane_of_untouched hu).laneHolds ?_
    exact hl.laneHolds hd hm (hpages.trans (hw.indexKept hpages.aligned))
      (hb.kept.trans (.refl c) (hw.dataKept c)) hholds
  | late h hf => exact .inr (h.laneHolds hd hm)

/-- Without an IO fault only the loop can fail. -/
theorem FillFailed.of_noFaults {bs : List (Block × Bytes)} (h : FillFailed H st d bs l w w')
    (hnf : w.NoFaults) : ∃ c w1 e w2, Loaded H st d l w c w1 ∧
      insertBlocks H st d bs (c, Batch.empty) w1 = .error e w2 := by
  cases h with
  | load hk hd hf => exact absurd hnf hf
  | insert c w1 e w2 hl hr hu => exact ⟨c, w1, e, w2, hl, hr⟩
  | control c w1 s w2 w3 hl hr hf hw hp hk hu => exact absurd hnf hf
  | late h hf => exact absurd hnf hf

end

end Storage.DeltaFlat
