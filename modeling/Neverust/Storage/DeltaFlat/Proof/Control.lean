import Neverust.Storage.DeltaFlat.Proof.Lookup

/-!
# The control file of a DeltaFlat lane

A lane on disk (`LaneDisk`) is blank, with no control record yet, or has a control record under
which it satisfies `LaneInv`.

* `readControlRaw_spec`, `writeControlRaw_spec`: the record is read back as it was written.
* `loadOrInitControl_spec`: loading keeps the entries and starts a blank lane, also when it fails.
-/

namespace Storage.DeltaFlat

open Io Rust Bytes LinearHash

/-- The control file of `d` holds the record `c`. -/
def HoldsControl (d : LaneDir) (w : Disk) (c : Control) : Prop :=
  w.content (d, .control) = (encodeControl c).bytes

/-- The lane has no control record and no entries. -/
structure Blank (d : LaneDir) (w : Disk) : Prop where
  control : (w.content (d, .control)).length < controlLen
  aligned : Aligned (w.content (d, .index))
  pages : ∀ b, pageAt (w.content (d, .index)) b = Buffer.zero bucketBytes

/-- The lane on disk, with the entries `l`. -/
inductive LaneDisk (H : Bytes → SplitHash) (st : Store) (d : LaneDir) (w : Disk) :
    List Entry → Prop
  | blank (h : Blank d w) : LaneDisk H st d w []
  | control (c : Control) (hc : HoldsControl d w c) (hi : LaneInv H st d c w) :
      LaneDisk H st d w (laneEntries d c w)

section
variable {H : Bytes → SplitHash} {st : Store} {d : LaneDir} {c c' : Control} {w w' w'' : Disk}
  {l : List Entry}

theorem pagesKept_of_untouched (h : Untouched w w') (ha : Aligned (w.content (d, .index))) :
    PagesKept d w w' :=
  ⟨fun b => by rw [h.content], by rw [h.content]; exact ha⟩

/-! ## The record -/

theorem writeAt_zero_of_le {f x : Bytes} (h : f.length ≤ x.length) : f.writeAt 0 x = x := by
  by_cases hx : x = []
  · subst hx
    simpa [Bytes.writeAt] using h
  · refine ext_byteAt (by rw [length_writeAt 0 hx]; omega) fun i hi => ?_
    rw [length_writeAt 0 hx] at hi
    rw [byteAt_writeAt, if_pos (by omega), Nat.sub_zero]

/-- Writing a part of a file's contents again changes nothing. -/
theorem writeAt_take_self (x : Bytes) (k : Nat) : x.writeAt 0 (x.take k) = x := by
  by_cases hx : x.take k = []
  · rw [Bytes.writeAt, if_pos hx]
  · refine ext_byteAt ?_ fun i hi => ?_
    · rw [length_writeAt 0 hx, List.length_take]
      omega
    · rw [byteAt_writeAt]
      split
      · rename_i hlt
        rw [List.length_take] at hlt
        simp only [byteAt, Nat.sub_zero, List.getD_eq_getElem?_getD]
        rw [List.getElem?_take_of_lt (by omega)]
      · rfl

theorem readControlRaw_holds (hc : HoldsControl d w c) (hl : c.level.toNat ≤ 31)
    (hv : c.shape.Valid) :
    wp (readControlRaw d) (fun r w' => r = some c ∧ Untouched w w')
      (fun e w' => e = .ioError .other ∧ ¬ w.NoFaults ∧ Untouched w w') w := by
  have h1 : Untouched w (w.logged (.read (d, .control))) := .logged w (by simp)
  have hread : (w.content (d, .control)).readAt 0 controlLen =
      some ((encodeControl c).bytes.slice 0 controlLen) := by
    rw [hc, readAt_of_le (by rw [(encodeControl c).len]; omega)]
  have hbuf : Buffer.ofBytes controlLen ((encodeControl c).bytes.slice 0 controlLen) =
      encodeControl c := by
    refine Buffer.ext_byte fun i hi => ?_
    rw [Buffer.byte_ofBytes hi, byteAt_slice hi, Nat.zero_add]
    rfl
  refine wp_bind (wp_readExactAt (fun h => absurd h (by decide)) (fun _ => ?_)
    fun hf => ⟨rfl, hf, h1⟩)
  rw [hread]
  refine wp_lift (fun r hr => ?_) fun e he => ?_
  · rw [hbuf, decodeControl_encodeControl (by omega) hv] at hr
    cases hr
    exact ⟨rfl, h1⟩
  · rw [hbuf, decodeControl_encodeControl (by omega) hv] at he
    cases he

theorem readControlRaw_blank (h : (w.content (d, .control)).length < controlLen) :
    wp (readControlRaw d) (fun r w' => r = none ∧ Untouched w w')
      (fun e w' => e = .ioError .other ∧ ¬ w.NoFaults ∧ Untouched w w') w := by
  have h1 : Untouched w (w.logged (.read (d, .control))) := .logged w (by simp)
  refine wp_bind (wp_readExactAt (fun h => absurd h (by decide)) (fun _ => ?_)
    fun hf => ⟨rfl, hf, h1⟩)
  rw [readAt, if_neg (not_or.2 ⟨by decide, by omega⟩)]
  exact wp_pure ⟨rfl, h1⟩

/-- Only the control file of `d` changed. -/
structure ControlWritten (d : LaneDir) (w w' : Disk) : Prop where
  frame : Frame (· = (d, .control)) w w'
  writes : ∀ p, p ≠ (d, .control) → w'.writes p = w.writes p

theorem ControlWritten.of_setFile (d : LaneDir) (w : Disk) (x : Bytes) :
    ControlWritten d w ((w.setFile (d, .control) x).logged (.write (d, .control))) where
  frame := (Frame.setFile (· = ((d, .control) : Path)) rfl w x).trans
    (Frame.logged _ _ (by simp))
  writes p hp := by
    rw [World.writes_logged_ne _ (by simpa using hp.symm), World.writes_setFile]

theorem ControlWritten.indexKept (h : ControlWritten d w w')
    (ha : Aligned (w.content (d, .index))) : PagesKept d w w' := by
  have hidx : w'.content (d, .index) = w.content (d, .index) := h.frame.content (by simp)
  exact ⟨fun b => by rw [hidx], by rw [hidx]; exact ha⟩

theorem ControlWritten.dataKept (h : ControlWritten d w w') (c : Control) : DataKept d c w w' :=
  .of_files c fun f => h.frame.files _ (by simp)

theorem writeControlRaw_spec (hlen : (w.content (d, .control)).length ≤ controlLen)
    (c : Control) :
    wp (writeControlRaw d c)
      (fun _ w' => ControlWritten d w w' ∧ HoldsControl d w' c ∧
        w'.pending (d, .index) (d, .control) = false)
      (fun e w' => e = .ioError .other ∧ ¬ w.NoFaults ∧ ControlWritten d w w' ∧
        w'.pending (d, .index) (d, .control) = w.pending (d, .index) (d, .control) ∧
        ∃ k, w'.content (d, .control) =
          (w.content (d, .control)).writeAt 0 ((encodeControl c).bytes.take k)) w := by
  have henc := (encodeControl c).len
  refine wp_writeAllAt (fun h => ?_) (fun _ _ hf => ?_) (fun hbig => ?_) fun k hf _ => ?_
  · rw [h] at henc
    exact absurd henc (by decide)
  · refine ⟨.of_setFile d w _, ?_, ?_⟩
    · rw [HoldsControl, World.content_logged, World.content_setFile_self]
      exact writeAt_zero_of_le (by rw [henc]; exact hlen)
    · have hfault : ∀ x, (w.setFile (d, .control) x).fault = none := fun x => hf
      rw [World.pending_logged, if_neg (by simp), if_pos ⟨rfl, hfault _⟩]
  · rw [henc] at hbig
    exact absurd hbig (by decide)
  · refine ⟨rfl, World.not_noFaults hf, .of_setFile d w _, ?_, k, ?_⟩
    · have hfault : ∀ x, (w.setFile (d, .control) x).fault = some k := fun x => hf
      rw [World.pending_logged, if_neg (by simp), hfault, if_neg (by simp)]
      rfl
    · rw [World.content_logged, World.content_setFile_self]

theorem HoldsControl.length (h : HoldsControl d w c) :
    (w.content (d, .control)).length = controlLen := by
  rw [h]
  exact (encodeControl c).len

/-! ## Loading -/

theorem initialControl_level (st : Store) :
    1 ≤ (initialControl st).level.toNat ∧ (initialControl st).level.toNat ≤ 24 := by
  have h : clamp (envUsize st.initialLevel 12) 1 24 ≤ 24 ∧ 1 ≤ clamp (envUsize st.initialLevel 12) 1 24 := by
    unfold clamp
    omega
  have : (initialControl st).level.toNat = clamp (envUsize st.initialLevel 12) 1 24 :=
    UInt32.toNat_ofNat_of_lt' (by change _ < 2 ^ 32; omega)
  omega

theorem initialControl_valid (st : Store) : (initialControl st).shape.Valid := by
  change (0 : UInt32).toNat < 2 ^ (initialControl st).level.toNat
  exact Nat.two_pow_pos _

theorem table_zero {index : Bytes} (h : ∀ b, pageAt index b = Buffer.zero bucketBytes) (b : Nat) :
    table index b = [] := by
  rw [table, h, entries_zero]

theorem liveEntries_zero {index : Bytes} (h : ∀ b, pageAt index b = Buffer.zero bucketBytes)
    (c : Control) : liveEntries c index = [] := by
  rw [liveEntries, live, List.flatMap_eq_nil_iff]
  exact fun b _ => table_zero h b

/-- A blank lane under the initial control record. -/
theorem Blank.laneInv (h : Blank d w) : LaneInv H st d (initialControl st) w where
  index := by
    refine ⟨?_, initialControl_valid st, h.aligned, fun b => ?_, ?_, ?_, ?_⟩
    · have := initialControl_level st
      omega
    · rw [h.pages]
      exact pageOk_zero
    · intro b e he
      rw [table_zero h.pages] at he
      cases he
    · intro b e he
      rw [table_zero h.pages] at he
      cases he
    · rw [liveEntries_zero h.pages]
      rfl
  data := by
    rw [liveEntries_zero h.pages]
    exact ⟨by simp, by simp, .nil, by simp⟩

theorem Blank.laneEntries (h : Blank d w) (c : Control) : laneEntries d c w = [] :=
  liveEntries_zero h.pages c

/-- What loading touches: the index is extended, the control record of a blank lane is written. -/
structure LoadKept (d : LaneDir) (w w' : Disk) : Prop where
  frame : Frame (fun p => p = (d, .index) ∨ p = (d, .control)) w w'
  writes : w'.writes (d, .index) = w.writes (d, .index)

theorem LoadKept.dataKept (h : LoadKept d w w') (c : Control) : DataKept d c w w' :=
  .of_files c fun f => h.frame.files _ (by simp)

theorem LoadKept.of_untouched (h : Untouched w w') : LoadKept d w w' :=
  ⟨h.frame _, h.writes _⟩

theorem LoadKept.of_index (h : IndexKept d w w') : LoadKept d w w' :=
  ⟨h.frame.mono fun _ hp => .inl hp, h.writes⟩

theorem LoadKept.of_control (h : ControlWritten d w w') : LoadKept d w w' :=
  ⟨h.frame.mono fun _ hp => .inr hp, h.writes _ (by simp)⟩

theorem LoadKept.trans (h : LoadKept d w w') (h' : LoadKept d w' w'') : LoadKept d w w'' :=
  ⟨h.frame.trans h'.frame, h'.writes.trans h.writes⟩

theorem HoldsControl.of_index (hc : HoldsControl d w c) (h : Frame (NotControl d) w w') :
    HoldsControl d w' c := by
  rw [HoldsControl, h.content (by simp [NotControl])]
  exact hc

theorem LaneInv.untouched (hi : LaneInv H st d c w) (h : Untouched w w') : LaneInv H st d c w' :=
  hi.kept (pagesKept_of_untouched h hi.index.aligned) (.of_files c fun f => by rw [h.files])

theorem Blank.of_index (hb : Blank d w) (h : IndexKept d w w') : Blank d w' :=
  ⟨by rw [h.frame.content (by simp)]; exact hb.control, h.aligned,
    fun b => by rw [h.pages]; exact hb.pages b⟩

theorem Blank.untouched (hb : Blank d w) (h : Untouched w w') : Blank d w' :=
  ⟨by rw [h.content]; exact hb.control, by rw [h.content]; exact hb.aligned,
    fun b => by rw [h.content]; exact hb.pages b⟩

/-- A blank lane after a write of the initial record that failed: still blank, or started. -/
theorem Blank.laneDisk_of_partial (hb : Blank d w) (h : ControlWritten d w w') {k : Nat}
    (hk : w'.content (d, .control) = (w.content (d, .control)).writeAt 0
      ((encodeControl (initialControl st)).bytes.take k)) : LaneDisk H st d w' [] := by
  have henc := (encodeControl (initialControl st)).len
  have hctl := hb.control
  have hp := h.indexKept hb.aligned
  have hpages : ∀ b, pageAt (w'.content (d, .index)) b = Buffer.zero bucketBytes :=
    fun b => (hp.pages b).trans (hb.pages b)
  by_cases hlt : k < controlLen
  · refine .blank ⟨?_, hp.aligned, hpages⟩
    by_cases hnil : (encodeControl (initialControl st)).bytes.take k = []
    · rw [hk, hnil, Bytes.writeAt, if_pos rfl]
      exact hctl
    · rw [hk, length_writeAt 0 hnil, List.length_take]
      omega
  · have hholds : HoldsControl d w' (initialControl st) := by
      rw [HoldsControl, hk, List.take_of_length_le (by omega)]
      exact writeAt_zero_of_le (by omega)
    have hinv : LaneInv H st d (initialControl st) w' :=
      hb.laneInv.kept hp (h.dataKept _)
    have := LaneDisk.control (initialControl st) hholds hinv
    rwa [DeltaFlat.laneEntries, liveEntries_zero hpages] at this

/-- **Loading a lane** keeps its entries and gives it a control record. -/
theorem loadOrInitControl_spec (hd : LaneDisk H st d w l) :
    wp (loadOrInitControl st d)
      (fun c w' => HoldsControl d w' c ∧ LaneInv H st d c w' ∧ laneEntries d c w' = l ∧
        LoadKept d w w' ∧ (HoldsControl d w c ∨ Blank d w ∧ c = initialControl st))
      (fun e w' => e = .ioError .other ∧ ¬ w.NoFaults ∧ LoadKept d w w' ∧
        LaneDisk H st d w' l) w := by
  unfold loadOrInitControl
  cases hd with
  | control c hc hi =>
    refine wp_bind (wp_mono (readControlRaw_holds hc hi.index.level hi.index.valid)
      (fun r w1 h1 => ?_) fun e w' h => ?_)
    case refine_2 =>
      obtain ⟨he, hf, hu⟩ := h
      refine ⟨he, hf, .of_untouched hu, ?_⟩
      rw [← laneEntries_kept c (pagesKept_of_untouched hu hi.index.aligned)]
      exact .control c (by rw [HoldsControl, hu.content]; exact hc) (hi.untouched hu)
    obtain ⟨rfl, hu1⟩ := h1
    have hi1 := hi.untouched hu1
    have hc1 : HoldsControl d w1 c := by rw [HoldsControl, hu1.content]; exact hc
    have hl1 := laneEntries_kept c (pagesKept_of_untouched hu1 hi.index.aligned)
    dsimp only
    refine wp_bind (wp_lift (fun n hn => ?_) fun e he => ?_)
    case refine_2 =>
      rw [hi.index.bucketCount_eq] at he
      cases he
    refine wp_bind (wp_mono (ensureIndexBuckets_spec hi1.index.aligned n) (fun _ w2 h2 => ?_)
      fun e w' h => ?_)
    · refine wp_pure ⟨hc1.of_index (frame_of_index h2.frame),
        hi1.kept h2.pagesKept (dataKept_of_index c h2.frame), ?_,
        (LoadKept.of_untouched hu1).trans (.of_index h2), .inl hc⟩
      rw [laneEntries_kept c h2.pagesKept, hl1]
    · obtain ⟨he, hf, h2⟩ := h
      refine ⟨he, hu1.noFaults.not.1 hf, (LoadKept.of_untouched hu1).trans (.of_index h2), ?_⟩
      rw [← hl1, ← laneEntries_kept c h2.pagesKept]
      exact .control c (hc1.of_index (frame_of_index h2.frame))
        (hi1.kept h2.pagesKept (dataKept_of_index c h2.frame))
  | blank hb =>
    refine wp_bind (wp_mono (readControlRaw_blank hb.control) (fun r w1 h1 => ?_) fun e w' h => ?_)
    case refine_2 =>
      obtain ⟨he, hf, hu⟩ := h
      exact ⟨he, hf, .of_untouched hu, .blank (hb.untouched hu)⟩
    obtain ⟨rfl, hu1⟩ := h1
    have hb1 := hb.untouched hu1
    have hinv1 : LaneInv H st d (initialControl st) w1 := hb1.laneInv
    dsimp only
    refine wp_bind (wp_lift (fun n hn => ?_) fun e he => ?_)
    case refine_2 =>
      rw [hinv1.index.bucketCount_eq] at he
      cases he
    refine wp_bind (wp_mono (ensureIndexBuckets_spec hb1.aligned n) (fun _ w2 h2 => ?_)
      fun e w' h => ?_)
    case refine_2 =>
      obtain ⟨he, hf, h2⟩ := h
      exact ⟨he, hu1.noFaults.not.1 hf, (LoadKept.of_untouched hu1).trans (.of_index h2),
        .blank (hb1.of_index h2)⟩
    have hb2 := hb1.of_index h2
    have h12 := (LoadKept.of_untouched hu1).trans (.of_index h2)
    refine wp_bind (wp_mono (writeControlRaw_spec (Nat.le_of_lt hb2.control) _)
      (fun _ w3 h3 => ?_) fun e w' h => ?_)
    · obtain ⟨hw3, hc3, -⟩ := h3
      have hp3 := hw3.indexKept hb2.aligned
      refine wp_pure ⟨hc3, hb2.laneInv.kept hp3 (hw3.dataKept _), ?_, h12.trans (.of_control hw3),
        .inr ⟨hb, rfl⟩⟩
      rw [laneEntries_kept _ hp3]
      exact hb2.laneEntries _
    · obtain ⟨he, hf, hw3, -, k, hk⟩ := h
      exact ⟨he, h12.frame.noFaults.not.1 hf, h12.trans (.of_control hw3),
        hb2.laneDisk_of_partial hw3 hk⟩

end

end Storage.DeltaFlat
